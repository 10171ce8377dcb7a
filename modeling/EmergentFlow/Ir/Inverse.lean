import EmergentFlow.Ir.MutationSpec

/-!
# Ir — Inverse

What `invert_mutation` puts into the inverse of a mutation
(`emergentflow/ir/mutation.py`), when it raises, and when the inverse,
applied to any graph, gives the graph it was taken against (`Restores`).
-/

namespace EmergentFlow

variable {Sub : Type}

/-! ## Restoring params -/

/-- `values` holds, for each of `names`, the value of the first param that
carries it. -/
structure FirstValues (params : List Param) (names : List String)
    (values : Dict String ParamValue) : Prop where
  keys : values.keys = names
  value : ∀ {name v}, values.get? name = some v →
    ∃ p, params.find? (·.name = name) = some p ∧ p.value = v

/-- Params sharing an updated name share their value. -/
def ParamsAgree (params : List Param) (names : List String) : Prop :=
  ∀ p ∈ params, ∀ q ∈ params, p.name = q.name → p.name ∈ names → p.value = q.value

theorem original_value_eq_ok {node_id name : String} {params : List Param}
    {r : String × ParamValue} : original_value node_id params name = .ok r ↔
      ∃ p, params.find? (·.name = name) = some p ∧ r = (name, p.value) := by
  rw [original_value]
  cases params.find? (·.name = name) with
  | none => simp
  | some p => simp [eq_comm]

theorem firstValues_of_mapM {node_id : String} {params : List Param} {names : List String}
    {values : List (String × ParamValue)} (hnodup : names.Nodup)
    (h : names.mapM (original_value node_id params) = .ok values) :
    FirstValues params names (Dict.ofList values) := by
  have hkeys : values.map Prod.fst = names := by
    rw [Checks.map_eq_of_mapM (h := id) _ h, List.map_id]
    intro name r hr
    obtain ⟨p, -, rfl⟩ := original_value_eq_ok.mp hr
    rfl
  have hentries : (Dict.ofList values).entries = values :=
    Dict.entries_ofList (by rw [hkeys]; exact hnodup)
  constructor
  · rw [Dict.keys, hentries, hkeys]
  · intro name v hv
    rw [← Dict.mem_entries_iff, hentries] at hv
    obtain ⟨name', -, hvalue⟩ := Checks.mem_right_of_mapM h hv
    obtain ⟨p, hp, heq⟩ := original_value_eq_ok.mp hvalue
    cases heq
    exact ⟨p, hp, rfl⟩

theorem FirstValues.carried {params : List Param} {names : List String}
    {values : Dict String ParamValue} (h : FirstValues params names values) {name : String}
    (hname : name ∈ names) : name ∈ params.map (·.name) := by
  rw [← h.keys, Dict.mem_keys_iff] at hname
  obtain ⟨v, hv⟩ := hname
  obtain ⟨p, hp, -⟩ := h.value hv
  have hp' := List.find?_some hp
  rw [decide_eq_true_eq] at hp'
  exact List.mem_map.mpr ⟨p, List.mem_of_find?_eq_some hp, hp'⟩

theorem FirstValues.unique {params : List Param} {names : List String}
    {values values' : Dict String ParamValue} (h : FirstValues params names values)
    (h' : FirstValues params names values') : values = values' := by
  apply Dict.ext_get? (h.keys.trans h'.keys.symm)
  intro name
  by_cases hname : name ∈ names
  · obtain ⟨v, hv⟩ := (Dict.mem_keys_iff _).mp (h.keys ▸ hname)
    obtain ⟨v', hv'⟩ := (Dict.mem_keys_iff _).mp (h'.keys ▸ hname)
    obtain ⟨p, hp, rfl⟩ := h.value hv
    obtain ⟨q, hq, rfl⟩ := h'.value hv'
    rw [hp, Option.some.injEq] at hq
    rw [hv, hv', hq]
  · rw [(Dict.get?_eq_none_iff _).mpr (h.keys ▸ hname),
      (Dict.get?_eq_none_iff _).mpr (h'.keys ▸ hname)]

theorem Param.updated_of_some {updates : Dict String ParamValue} {p : Param} {v : ParamValue}
    (h : updates.get? p.name = some v) : p.updated updates = { p with value := v } := by
  simp only [Param.updated, h]

theorem Param.updated_of_none {updates : Dict String ParamValue} {p : Param}
    (h : updates.get? p.name = none) : p.updated updates = p := by
  simp only [Param.updated, h]

/-- The second of two updates of the same names decides. -/
theorem Param.updated_twice {updates values : Dict String ParamValue}
    (hkeys : values.keys = updates.keys) (p : Param) :
    (p.updated updates).updated values = p.updated values := by
  cases hu : updates.get? p.name with
  | none => rw [Param.updated_of_none hu]
  | some u =>
      have hmem : p.name ∈ values.keys := by
        rw [hkeys, Dict.mem_keys_iff]
        exact ⟨u, hu⟩
      obtain ⟨v, hv⟩ := (Dict.mem_keys_iff _).mp hmem
      rw [Param.updated_of_some hu, Param.updated_of_some hv, Param.updated_of_some]
      exact hv

/-- Updating params the node carries adds none. -/
theorem updated_params_of_carried {params : List Param} {updates : Dict String ParamValue}
    (h : ∀ name ∈ updates.keys, name ∈ params.map (·.name)) :
    updated_params params updates = params.map (·.updated updates) := by
  have hnone : (updates.entries.filter fun u => u.1 ∉ params.map (·.name)) = [] := by
    rw [List.filter_eq_nil_iff]
    intro u hu
    simpa using h u.1 (List.mem_map_of_mem hu)
  rw [updated_params, hnone, List.map_nil, List.append_nil]

theorem updated_params_twice {params : List Param} {updates values : Dict String ParamValue}
    (h : ∀ name ∈ updates.keys, name ∈ params.map (·.name)) (hkeys : values.keys = updates.keys) :
    updated_params (updated_params params updates) values = updated_params params values := by
  have hnames : (params.map (·.updated updates)).map (·.name) = params.map (·.name) := by
    rw [List.map_map]
    exact List.map_congr_left fun p _ => p.updated_name updates
  rw [updated_params_of_carried h,
    updated_params_of_carried (by rw [hnames, hkeys]; exact h),
    updated_params_of_carried (by rw [hkeys]; exact h), List.map_map]
  exact List.map_congr_left fun p _ => p.updated_twice hkeys

/-- Writing the first values back restores the params exactly when params
of one name agree. -/
theorem updated_params_first_iff {params : List Param} {names : List String}
    {values : Dict String ParamValue} (h : FirstValues params names values) :
    updated_params params values = params ↔ ParamsAgree params names := by
  rw [updated_params_of_carried fun name hname => h.carried (h.keys ▸ hname)]
  have hfirst : ∀ {name}, name ∈ names → ∃ q ∈ params, q.name = name ∧
      values.get? name = some q.value := by
    intro name hname
    rw [← h.keys, Dict.mem_keys_iff] at hname
    obtain ⟨v, hv⟩ := hname
    obtain ⟨q, hq, rfl⟩ := h.value hv
    have hq' := List.find?_some hq
    rw [decide_eq_true_eq] at hq'
    exact ⟨q, List.mem_of_find?_eq_some hq, hq', hv⟩
  constructor
  · intro heq
    -- every carrier of an updated name holds the first carrier's value
    have hvalue : ∀ p ∈ params, ∀ v, values.get? p.name = some v → p.value = v := by
      intro p hp v hv
      have hmap := List.map_inj_left.mp (heq.trans (List.map_id params).symm) p hp
      rw [Param.updated_of_some hv] at hmap
      exact (congrArg Param.value hmap).symm
    intro p hp q hq hpq hname
    obtain ⟨r, -, -, hr⟩ := hfirst hname
    rw [hvalue p hp _ hr, hvalue q hq _ (hpq ▸ hr)]
  · intro hagree
    have hid : params.map (·.updated values) = params.map id := by
      apply List.map_congr_left
      intro p hp
      cases hv : values.get? p.name with
      | none => exact Param.updated_of_none hv
      | some v =>
          have hname : p.name ∈ names := by
            rw [← h.keys, Dict.mem_keys_iff]
            exact ⟨v, hv⟩
          obtain ⟨q, hq, hqname, hqv⟩ := hfirst hname
          have heq := hagree p hp q hq hqname.symm hname
          rw [hqv, Option.some.injEq] at hv
          rw [Param.updated_of_some hqv, ← heq]
          rfl
    rw [hid, List.map_id]

/-! ## The inverse mutation -/

/-- The positions of the nodes a mutation removes, in the order it names
them. -/
def removed_positions (g : Graph Sub) (m : GraphMutation Sub) : List Position :=
  m.remove_nodes.filterMap fun id => (g.nodes.get? id).map (·.position)

/-- What `invert_mutation` puts into the inverse of `m`. -/
structure Inverted (g : Graph Sub) (m m' : GraphMutation Sub) : Prop where
  remove_nodes : m'.remove_nodes = m.add_nodes.map (·.id)
  remove_edges : m'.remove_edges = m.add_edges.map (·.id)
  node_ids : m'.add_nodes.map (·.id) = m.remove_nodes
  node : ∀ n ∈ m'.add_nodes, g.nodes.get? n.id = some n
  positions : m'.add_nodes.map (·.position) = removed_positions g m
  edge_ids : m'.add_edges.map (·.id) = m.remove_edges
  edge : ∀ e ∈ m'.add_edges, g.edges.get? e.id = some e
  param_keys : m'.set_params.keys = m.set_params.keys
  params : ∀ {k values}, m'.set_params.get? k = some values → ∃ updates n,
    m.set_params.get? k = some updates ∧ g.nodes.get? k = some n ∧
      FirstValues n.params updates.keys values

theorem original_eq_ok {α : Type} {missing : String → MutationError} {d : Dict String α}
    {id : String} {a : α} : original missing d id = .ok a ↔ d.get? id = some a := by
  rw [original]
  cases d.get? id with
  | none => simp
  | some b => simp

theorem originals_spec {α : Type} {missing : String → MutationError} {d : Dict String α}
    {key : α → String} (hkey : ∀ {k a}, d.get? k = some a → key a = k) {ids : List String}
    {l : List α} (h : ids.mapM (original missing d) = .ok l) :
    l.map key = ids ∧ ∀ a ∈ l, d.get? (key a) = some a := by
  constructor
  · rw [Checks.map_eq_of_mapM (h := id) _ h, List.map_id]
    intro id a ha
    exact hkey (original_eq_ok.mp ha)
  · intro a ha
    obtain ⟨id, -, hid⟩ := Checks.mem_right_of_mapM h ha
    rw [original_eq_ok] at hid
    rw [hkey hid, hid]

theorem invert_mutation_spec {g : Graph Sub} {m m' : GraphMutation Sub} (hv : g.Valid)
    (h : invert_mutation g m = .ok m') : Inverted g m m' := by
  obtain ⟨add_nodes, hnodes, h⟩ := Checks.bind_eq_ok.mp h
  obtain ⟨add_edges, hedges, h⟩ := Checks.bind_eq_ok.mp h
  obtain ⟨set_params, hparams, h⟩ := Checks.bind_eq_ok.mp h
  cases h
  obtain ⟨node_ids, node⟩ := originals_spec hv.node_id hnodes
  obtain ⟨edge_ids, edge⟩ := originals_spec hv.edge_id hedges
  have hparam : ∀ e r, original_values g e = .ok r → ∃ n values, g.nodes.get? e.1 = some n ∧
      e.2.keys.mapM (original_value e.1 n.params) = .ok values ∧
      r = (e.1, Dict.ofList values) := by
    intro e r hr
    obtain ⟨n, hn, hr⟩ := Checks.bind_eq_ok.mp hr
    obtain ⟨values, hvalues, hr⟩ := Checks.bind_eq_ok.mp hr
    cases hr
    exact ⟨n, values, original_eq_ok.mp hn, hvalues, rfl⟩
  have hkeys : set_params.map Prod.fst = m.set_params.entries.map Prod.fst := by
    apply Checks.map_eq_of_mapM _ hparams
    intro e r hr
    obtain ⟨n, values, -, -, rfl⟩ := hparam e r hr
    rfl
  -- the keys of the update are distinct, so no entry is lost in the dict
  have hentries : (Dict.ofList set_params).entries = set_params :=
    Dict.entries_ofList (by rw [hkeys]; exact m.set_params.nodup)
  have positions : add_nodes.map (·.position) = removed_positions g m := by
    have hsome : add_nodes.map (fun n => some n.position)
        = m.remove_nodes.map fun id => (g.nodes.get? id).map (·.position) := by
      apply Checks.map_eq_of_mapM _ hnodes
      intro id n hn
      rw [original_eq_ok.mp hn, Option.map_some]
    have hid := congrArg (List.filterMap id) hsome
    simpa [List.filterMap_map, Function.comp_def, removed_positions] using hid
  refine ⟨rfl, rfl, node_ids, node, positions, edge_ids, edge, ?_, ?_⟩
  · rw [Dict.keys, hentries, hkeys, Dict.keys]
  · intro k values hvalues
    rw [← Dict.mem_entries_iff, hentries] at hvalues
    obtain ⟨⟨k', updates⟩, hmem, hr⟩ := Checks.mem_right_of_mapM hparams hvalues
    obtain ⟨n, l, hn, hl, heq⟩ := hparam _ _ hr
    cases heq
    exact ⟨updates, n, (Dict.mem_entries_iff _).mp hmem, hn,
      firstValues_of_mapM updates.nodup_keys hl⟩

/-! ## When a mutation has an inverse -/

/-- Every param that `m` sets is one its node carries in `g`. -/
def EditsCarried (g : Graph Sub) (m : GraphMutation Sub) : Prop :=
  ∀ {k updates}, m.set_params.get? k = some updates →
    ∃ n, g.nodes.get? k = some n ∧ ∀ name ∈ updates.keys, name ∈ n.params.map (·.name)

theorem original_value_exists {node_id name : String} {params : List Param}
    (h : name ∈ params.map (·.name)) : ∃ r, original_value node_id params name = .ok r := by
  obtain ⟨p, hp, hname⟩ := List.mem_map.mp h
  have hfind : (params.find? (·.name = name)).isSome :=
    List.find?_isSome.mpr ⟨p, hp, by simpa using hname⟩
  obtain ⟨q, hq⟩ := Option.isSome_iff_exists.mp hfind
  exact ⟨_, original_value_eq_ok.mpr ⟨q, hq, rfl⟩⟩

/-- A mutation that takes out what is there has an inverse when it only
edits params that are there. -/
theorem invert_mutation_exists {g : Graph Sub} {m : GraphMutation Sub}
    (hnodes : ∀ k ∈ m.remove_nodes, ∃ n, g.nodes.get? k = some n)
    (hedges : ∀ k ∈ m.remove_edges, ∃ e, g.edges.get? k = some e) (h : EditsCarried g m) :
    ∃ m', invert_mutation g m = .ok m' := by
  obtain ⟨add_nodes, hadd_nodes⟩ := Checks.mapM_exists (f := original .invert_remove_node g.nodes)
    fun k hk => (hnodes k hk).imp fun n hn => original_eq_ok.mpr hn
  obtain ⟨add_edges, hadd_edges⟩ := Checks.mapM_exists (f := original .invert_remove_edge g.edges)
    fun k hk => (hedges k hk).imp fun e he => original_eq_ok.mpr he
  obtain ⟨set_params, hset⟩ := Checks.mapM_exists (f := original_values g)
    (l := m.set_params.entries) (by
      intro e he
      obtain ⟨n, hn, hcarried⟩ := h ((Dict.mem_entries_iff _).mp he)
      obtain ⟨values, hvalues⟩ := Checks.mapM_exists (f := original_value e.1 n.params)
        fun name hname => original_value_exists (hcarried name hname)
      exact ⟨_, Checks.bind_eq_ok.mpr ⟨n, original_eq_ok.mpr hn,
        Checks.bind_eq_ok.mpr ⟨values, hvalues, rfl⟩⟩⟩)
  exact ⟨_, Checks.bind_eq_ok.mpr ⟨add_nodes, hadd_nodes, Checks.bind_eq_ok.mpr
    ⟨add_edges, hadd_edges, Checks.bind_eq_ok.mpr ⟨set_params, hset, rfl⟩⟩⟩⟩

theorem Inverted.edits_carried {g : Graph Sub} {m m' : GraphMutation Sub}
    (hi : Inverted g m m') : EditsCarried g m := by
  intro k updates hset
  have hkey : k ∈ m'.set_params.keys := by
    rw [hi.param_keys, Dict.mem_keys_iff]
    exact ⟨updates, hset⟩
  obtain ⟨values, hvalues⟩ := (Dict.mem_keys_iff _).mp hkey
  obtain ⟨updates', n, hset', hn, hfirst⟩ := hi.params hvalues
  rw [hset, Option.some.injEq] at hset'
  subst hset'
  exact ⟨n, hn, fun name hname => hfirst.carried hname⟩

/-! ## Applying the inverse to a graph -/

theorem ParamsSet.position {reg : NodeRegistry} {updates : List (String × Dict String ParamValue)}
    {d d' : Dict String (Node Sub)} (h : ParamsSet reg updates d d') (k : String) :
    (d'.get? k).map (·.position) = (d.get? k).map (·.position) := by
  by_cases hk : k ∈ updates.map Prod.fst
  · obtain ⟨e, he, rfl⟩ := List.mem_map.mp hk
    obtain ⟨n, hn, -, -, hn'⟩ := h.here e he
    rw [hn, hn']
    rfl
  · rw [h.frame k hk]

/-- Applying the inverse of `m`, taken against `p`, to the graph `g` gives
`p`: outside of what `m` touched the two agree, what `m` added is there and
what it removed is not, and the updated params can be written back. -/
structure Restores (reg : NodeRegistry) (g p : Graph Sub) (m : GraphMutation Sub) : Prop where
  schema_version : g.schema_version = p.schema_version
  paradigm : g.paradigm = p.paradigm
  name : g.name = p.name
  params : ∀ name, g.params.get? name = p.params.get? name
  added : ∀ k ∈ m.add_nodes.map (·.id), ∃ n, g.nodes.get? k = some n
  added_edges : ∀ k ∈ m.add_edges.map (·.id), ∃ e, g.edges.get? k = some e
  removed : ∀ k ∈ m.remove_nodes, k ∉ m.add_nodes.map (·.id) → g.nodes.get? k = none
  removed_edges : ∀ k ∈ m.remove_edges, k ∉ m.add_edges.map (·.id) → g.edges.get? k = none
  lands_home : LandsHome g.positions (removed_positions p m)
  untouched : ∀ k, k ∉ m.remove_nodes → k ∉ m.add_nodes.map (·.id) →
    m.set_params.get? k = none → g.nodes.get? k = p.nodes.get? k
  untouched_edges : ∀ k, k ∉ m.remove_edges → k ∉ m.add_edges.map (·.id) →
    g.edges.get? k = p.edges.get? k
  edited : ∀ {k updates n}, m.set_params.get? k = some updates → p.nodes.get? k = some n →
    contract_errors reg n = [] ∧ ∃ a values,
      (if k ∈ m.remove_nodes then p.nodes.get? k else g.nodes.get? k) = some a ∧
        FirstValues n.params updates.keys values ∧ a.blank_names values = [] ∧
        a.with_params values = n

section Restore

variable {reg : NodeRegistry} {g h p p' : Graph Sub} {m m' : GraphMutation Sub}
  {kept placed back restored : Dict String (Node Sub)} {kept_edges back_edges : Dict String Edge}

/-- A re-added node that ends up as it was has kept its position. -/
theorem Inverted.lands_home (hi : Inverted p m m')
    (hb : Applied reg g m' back restored back_edges h) (hsame : h.Same p) :
    place_nodes g.positions m'.add_nodes 0 g.positions = m'.add_nodes := by
  apply place_nodes_eq_of_positions (f := fun id => (p.nodes.get? id).map (·.position))
  · intro n hn
    rw [← hsame.nodes, hb.params_set.position, hb.added.here n hn, Option.map_some]
  · intro n hn
    rw [hi.node n hn, Option.map_some]

/-- A node of `p` that `m` does not remove is not one it adds. -/
theorem Applied.not_added (ha : Applied reg p m kept placed kept_edges p') {k : String}
    {n : Node Sub} (hn : p.nodes.get? k = some n) (hrem : k ∉ m.remove_nodes) :
    k ∉ m.add_nodes.map (·.id) := by
  intro hadd
  rw [← place_nodes_ids p.positions p.positions m.add_nodes 0] at hadd
  obtain ⟨n', hn', rfl⟩ := List.mem_map.mp hadd
  have hfresh := ha.added.fresh n' hn'
  rw [ha.removed.frame _ hrem, hn] at hfresh
  cases hfresh

theorem Applied.takes_out (ha : Applied reg p m kept placed kept_edges p') :
    (∀ k ∈ m.remove_nodes, ∃ n, p.nodes.get? k = some n) ∧
      ∀ k ∈ m.remove_edges, ∃ e, p.edges.get? k = some e :=
  ⟨ha.removed.present, ha.removed_edges.present⟩

/-- The original of an updated node, and the old values of its params. -/
theorem Inverted.old_values (hi : Inverted p m m') {k : String}
    {updates : Dict String ParamValue} {n : Node Sub} (hset : m.set_params.get? k = some updates)
    (hn : p.nodes.get? k = some n) :
    ∃ values, m'.set_params.get? k = some values ∧ FirstValues n.params updates.keys values := by
  have hkey : k ∈ m'.set_params.keys := by
    rw [hi.param_keys, Dict.mem_keys_iff]
    exact ⟨updates, hset⟩
  obtain ⟨values, hvalues⟩ := (Dict.mem_keys_iff _).mp hkey
  obtain ⟨updates', n', hset', hn', hfirst⟩ := hi.params hvalues
  rw [hset, Option.some.injEq] at hset'
  rw [hn, Option.some.injEq] at hn'
  subst hset' hn'
  exact ⟨values, hvalues, hfirst⟩

/-- The inverse sets the params that the mutation sets. -/
theorem Inverted.edits_carried_iff (hi : Inverted p m m') :
    EditsCarried g m' ↔ EditsCarried g m := by
  constructor
  · intro h k updates hset
    obtain ⟨n, hn, -⟩ := hi.edits_carried hset
    obtain ⟨values, hvalues, hfirst⟩ := hi.old_values hset hn
    exact hfirst.keys ▸ h hvalues
  · intro h k values hvalues
    obtain ⟨updates, n, hset, -, hfirst⟩ := hi.params hvalues
    exact hfirst.keys ▸ h hset

/-- The nodes before the params are written back: those of `p` that `m`
removed, none that it added, and those of `g`. -/
theorem Inverted.restored_get? (hi : Inverted p m m')
    (hundo : Dict.Removed m'.remove_nodes g.nodes back)
    (hback : Dict.Inserted (·.id) m'.add_nodes back restored) (k : String) :
    restored.get? k = if k ∈ m.remove_nodes then p.nodes.get? k else
      if k ∈ m.add_nodes.map (·.id) then none else g.nodes.get? k := by
  rw [← hi.node_ids, ← hi.remove_nodes]
  exact hback.get?_exchange hundo hi.node k

theorem Inverted.restored_edges_get? (hi : Inverted p m m') {edges : Dict String Edge}
    (hundo : Dict.Removed m'.remove_edges g.edges back_edges)
    (hback : Dict.Inserted (·.id) m'.add_edges back_edges edges) (k : String) :
    edges.get? k = if k ∈ m.remove_edges then p.edges.get? k else
      if k ∈ m.add_edges.map (·.id) then none else g.edges.get? k := by
  rw [← hi.edge_ids, ← hi.remove_edges]
  exact hback.get?_exchange hundo hi.edge k

/-- What gives `p` back meets the condition. -/
theorem Applied.restores (ha : Applied reg p m kept placed kept_edges p') (hi : Inverted p m m')
    (hback : apply_mutation reg g m' = .ok h) (hsame : h.Same p) : Restores reg g p m := by
  obtain ⟨back, restored, back_edges, hb⟩ := apply_mutation_spec hback
  have hplace := hi.lands_home hb hsame
  have hadded := hb.added
  rw [hplace] at hadded
  have hnodes := hi.restored_get? hb.removed hadded
  have hedges := hi.restored_edges_get? hb.removed_edges hb.added_edges
  have hheader := hb.header
  refine {
    schema_version := by rw [← hsame.schema_version, hheader]
    paradigm := by rw [← hsame.paradigm, hheader]
    name := by rw [← hsame.name, hheader]
    params := fun name => by rw [← hsame.params, hheader]
    added := fun k hk => hb.removed.present k (hi.remove_nodes ▸ hk)
    added_edges := fun k hk => hb.removed_edges.present k (hi.remove_edges ▸ hk)
    removed := ?_, removed_edges := ?_, lands_home := ?_, untouched := ?_, untouched_edges := ?_
    edited := ?_ }
  · intro k hrem hadd
    rw [← hi.node_ids] at hrem
    obtain ⟨n, hn, rfl⟩ := List.mem_map.mp hrem
    rw [← hb.removed.frame n.id (hi.remove_nodes ▸ hadd), hadded.fresh n hn]
  · intro k hrem hadd
    rw [← hi.edge_ids] at hrem
    obtain ⟨e, he, rfl⟩ := List.mem_map.mp hrem
    rw [← hb.removed_edges.frame e.id (hi.remove_edges ▸ hadd), hb.added_edges.fresh e he]
  · rw [← hi.positions, ← place_nodes_eq_iff_landsHome fun _ => Iff.rfl]
    exact hplace
  · intro k hrem hadd hset
    have hnot : k ∉ m'.set_params.keys := by
      rw [hi.param_keys]
      exact (Dict.get?_eq_none_iff _).mp hset
    rw [← hsame.nodes, hb.params_set.frame k hnot, hnodes, if_neg hrem, if_neg hadd]
  · intro k hrem hadd
    rw [← hsame.edges, hedges, if_neg hrem, if_neg hadd]
  · intro k updates n hset hn
    obtain ⟨values, hvalues, hfirst⟩ := hi.old_values hset hn
    obtain ⟨a, ha', hblank, hcontract, hfinal⟩ :=
      hb.params_set.here _ ((Dict.mem_entries_iff _).mpr hvalues)
    rw [hsame.nodes, hn, Option.some.injEq] at hfinal
    refine ⟨hfinal ▸ hcontract, a, values, ?_, hfirst, hblank, hfinal.symm⟩
    rw [hnodes] at ha'
    split
    · rename_i hrem
      rwa [if_pos hrem] at ha'
    · rename_i hrem
      rwa [if_neg hrem, if_neg (ha.not_added hn hrem)] at ha'

/-- Rewriting an updated node gives the original. -/
theorem Applied.edits_back (ha : Applied reg p m kept placed kept_edges p') (hi : Inverted p m m')
    (hr : Restores reg g p m)
    (hnodes : ∀ k, restored.get? k = if k ∈ m.remove_nodes then p.nodes.get? k else
      if k ∈ m.add_nodes.map (·.id) then none else g.nodes.get? k)
    {k : String} {values : Dict String ParamValue} (hvalues : m'.set_params.get? k = some values) :
    ∃ n a, p.nodes.get? k = some n ∧ restored.get? k = some a ∧ a.blank_names values = [] ∧
      a.with_params values = n ∧ contract_errors reg n = [] := by
  obtain ⟨updates, n, hset, hn, hfirst⟩ := hi.params hvalues
  obtain ⟨hcontract, a, values', ha', hfirst', hblank, heq⟩ := hr.edited hset hn
  have hvalues' : values = values' := hfirst.unique hfirst'
  refine ⟨n, a, hn, ?_, hvalues' ▸ hblank, hvalues' ▸ heq, hcontract⟩
  rw [hnodes]
  split
  · rename_i hrem
    rwa [if_pos hrem] at ha'
  · rename_i hrem
    rw [if_neg hrem] at ha'
    rwa [if_neg (ha.not_added hn hrem)]

/-- With the params written back, the nodes are those of `p`. -/
theorem Applied.nodes_back (ha : Applied reg p m kept placed kept_edges p') (hi : Inverted p m m')
    (hr : Restores reg g p m)
    (hnodes : ∀ k, restored.get? k = if k ∈ m.remove_nodes then p.nodes.get? k else
      if k ∈ m.add_nodes.map (·.id) then none else g.nodes.get? k)
    {nodes : Dict String (Node Sub)} (hparams : ParamsSet reg m'.set_params.entries restored nodes)
    (k : String) : nodes.get? k = p.nodes.get? k := by
  cases hk : m'.set_params.get? k with
  | some values =>
      obtain ⟨n, a, hn, ha', -, heq, -⟩ := ha.edits_back hi hr hnodes hk
      obtain ⟨a', hfound, -, -, hfinal⟩ := hparams.here _ ((Dict.mem_entries_iff _).mpr hk)
      rw [ha', Option.some.injEq] at hfound
      rw [hfinal, ← hfound, heq, hn]
  | none =>
      have hnot := (Dict.get?_eq_none_iff _).mp hk
      rw [hparams.frame k hnot, hnodes]
      split
      · rfl
      · rename_i hrem
        split
        · rename_i hadded
          cases hn : p.nodes.get? k with
          | none => rfl
          | some n => exact absurd hadded (ha.not_added hn hrem)
        · rename_i hadded
          apply hr.untouched k hrem hadded
          rw [Dict.get?_eq_none_iff, ← hi.param_keys]
          exact hnot

theorem Applied.edges_back (ha : Applied reg p m kept placed kept_edges p')
    (hr : Restores reg g p m) {edges : Dict String Edge}
    (hedges : ∀ k, edges.get? k = if k ∈ m.remove_edges then p.edges.get? k else
      if k ∈ m.add_edges.map (·.id) then none else g.edges.get? k) (k : String) :
    edges.get? k = p.edges.get? k := by
  rw [hedges]
  split
  · rfl
  · rename_i hrem
    split
    · rename_i hadded
      obtain ⟨e, he, rfl⟩ := List.mem_map.mp hadded
      rw [← ha.removed_edges.frame _ hrem, ha.added_edges.fresh e he]
    · rename_i hadded
      exact hr.untouched_edges k hrem hadded

/-- What meets the condition gives `p` back. -/
theorem Applied.leads_back (ha : Applied reg p m kept placed kept_edges p')
    (hi : Inverted p m m') (hv : p.Valid) (hr : Restores reg g p m) :
    ∃ h, apply_mutation reg g m' = .ok h ∧ h.Same p := by
  have hids : (m.add_nodes.map (·.id)).Nodup := by
    rw [← place_nodes_ids p.positions p.positions m.add_nodes 0]
    exact ha.added.nodup
  obtain ⟨back, hremove⟩ := remove_ids_exists .remove_node hids hr.added
  obtain ⟨back_edges, hremove_edges⟩ :=
    remove_ids_exists .remove_edge ha.added_edges.nodup hr.added_edges
  rw [← hi.remove_nodes] at hremove
  rw [← hi.remove_edges] at hremove_edges
  have hundo := remove_ids_spec hremove
  have hundo_edges := remove_ids_spec hremove_edges
  have hfresh : ∀ n ∈ m'.add_nodes, back.get? n.id = none := by
    intro n hn
    have hrem : n.id ∈ m.remove_nodes := hi.node_ids ▸ List.mem_map_of_mem hn
    exact hundo.get?_eq_none fun hadd => hr.removed _ hrem (hi.remove_nodes ▸ hadd)
  have hfresh_edges : ∀ e ∈ m'.add_edges, back_edges.get? e.id = none := by
    intro e he
    have hrem : e.id ∈ m.remove_edges := hi.edge_ids ▸ List.mem_map_of_mem he
    exact hundo_edges.get?_eq_none fun hadd => hr.removed_edges _ hrem (hi.remove_edges ▸ hadd)
  -- the phases of the inverse, in the order they run
  obtain ⟨restored, hadd⟩ := add_nodes_loop_exists g.positions g.positions 0
    (by rw [hi.node_ids]; exact ha.removed.nodup) hfresh
  obtain ⟨edges, hadd_edges⟩ := add_edges_loop_exists
    (by rw [hi.edge_ids]; exact ha.removed_edges.nodup) hfresh_edges
  have hback := add_nodes_loop_spec hadd
  have hplace : place_nodes g.positions m'.add_nodes 0 g.positions = m'.add_nodes := by
    rw [place_nodes_eq_iff_landsHome fun _ => Iff.rfl, hi.positions]
    exact hr.lands_home
  rw [hplace] at hback
  have hnodes := hi.restored_get? hundo hback
  have hcontract : ∀ e ∈ m'.set_params.entries, ∃ a, restored.get? e.1 = some a ∧
      a.blank_names e.2 = [] ∧ contract_errors reg (a.with_params e.2) = [] := by
    intro e he
    obtain ⟨n, a, hn, ha', hblank, heq, hcontract⟩ :=
      ha.edits_back hi hr hnodes ((Dict.mem_entries_iff _).mp he)
    exact ⟨a, ha', hblank, by rw [heq]; exact hcontract⟩
  obtain ⟨nodes, hset⟩ := set_params_loop_exists m'.set_params.nodup hcontract
  have hparams := set_params_loop_spec m'.set_params.nodup hset
  have hsame : ({ g with nodes := nodes, edges := edges } : Graph Sub).Same p :=
    ⟨hr.schema_version, hr.paradigm, hr.name, ha.nodes_back hi hr hnodes hparams,
      ha.edges_back hr (hi.restored_edges_get? hundo_edges (add_edges_loop_spec hadd_edges)),
      hr.params⟩
  exact ⟨_, apply_mutation_eq_ok hremove hremove_edges hadd hadd_edges hset (hsame.valid hv),
    hsame⟩

end Restore

end EmergentFlow
