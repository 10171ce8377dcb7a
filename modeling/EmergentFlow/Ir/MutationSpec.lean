import EmergentFlow.Ir.Cascade

/-!
# Ir — MutationSpec

One lemma for each loop of `apply_mutation`, saying which ids it touches
and what it leaves under every id, and one saying when it runs through.
`apply_mutation_spec` and `apply_mutation_exists` put them together.
-/

namespace EmergentFlow

variable {Sub : Type}

/-! ## What each loop leaves -/

theorem remove_ids_spec {α : Type} {missing : String → MutationError} {ids : List String}
    {d d' : Dict String α} (h : remove_ids missing ids d = .ok d') :
    Dict.Removed ids d d' := by
  induction ids generalizing d with
  | nil =>
      cases h
      exact .nil _
  | cons id ids ih =>
      rw [remove_ids] at h
      split at h
      · rename_i hid
        obtain ⟨a, ha⟩ := (Dict.contains_iff d).mp hid
        exact .cons ha (ih h)
      · cases h

theorem remove_ids_exists {α : Type} (missing : String → MutationError) {ids : List String}
    {d : Dict String α} (hnodup : ids.Nodup) (hin : ∀ id ∈ ids, ∃ a, d.get? id = some a) :
    ∃ d', remove_ids missing ids d = .ok d' := by
  induction ids generalizing d with
  | nil => exact ⟨d, rfl⟩
  | cons id ids ih =>
      rw [List.nodup_cons] at hnodup
      rw [remove_ids, if_pos ((Dict.contains_iff d).mpr (hin id List.mem_cons_self))]
      apply ih hnodup.2
      intro k hk
      obtain ⟨a, ha⟩ := hin k (List.mem_cons_of_mem _ hk)
      have hne : id ≠ k := by
        rintro rfl
        exact hnodup.1 hk
      exact ⟨a, by rw [Dict.get?_erase_ne d hne, ha]⟩

theorem add_edges_loop_spec {l : List Edge} {d d' : Dict String Edge}
    (h : add_edges_loop l d = .ok d') : Dict.Inserted (·.id) l d d' := by
  induction l generalizing d with
  | nil =>
      cases h
      exact .nil _ _
  | cons edge rest ih =>
      rw [add_edges_loop] at h
      split at h
      · cases h
      · rename_i hid
        rw [Bool.not_eq_true, Dict.not_contains_iff] at hid
        exact .cons hid (ih h)

theorem add_edges_loop_exists {l : List Edge} {d : Dict String Edge}
    (hnodup : (l.map (·.id)).Nodup) (hfresh : ∀ e ∈ l, d.get? e.id = none) :
    ∃ d', add_edges_loop l d = .ok d' := by
  induction l generalizing d with
  | nil => exact ⟨d, rfl⟩
  | cons edge rest ih =>
      rw [List.map_cons, List.nodup_cons] at hnodup
      rw [add_edges_loop,
        if_neg (by rw [(Dict.not_contains_iff d).mpr (hfresh edge List.mem_cons_self)]; simp)]
      apply ih hnodup.2
      intro e he
      have hne : edge.id ≠ e.id := by
        intro heq
        exact hnodup.1 (heq ▸ List.mem_map_of_mem he)
      rw [Dict.get?_set_ne d edge hne, hfresh e (List.mem_cons_of_mem _ he)]

theorem add_nodes_loop_spec {existing taken : List Position} {l : List (Node Sub)}
    {index : Nat} {d d' : Dict String (Node Sub)}
    (h : add_nodes_loop existing l index taken d = .ok d') :
    Dict.Inserted (·.id) (place_nodes existing l index taken) d d' := by
  induction l generalizing index taken d with
  | nil =>
      cases h
      exact .nil _ _
  | cons node rest ih =>
      rw [add_nodes_loop] at h
      split at h
      · cases h
      · rename_i hid
        rw [Bool.not_eq_true, Dict.not_contains_iff] at hid
        rw [← place_node_id existing taken index node] at hid h
        exact .cons hid (ih h)

theorem add_nodes_loop_exists (existing taken : List Position) (index : Nat)
    {l : List (Node Sub)} {d : Dict String (Node Sub)} (hnodup : (l.map (·.id)).Nodup)
    (hfresh : ∀ n ∈ l, d.get? n.id = none) :
    ∃ d', add_nodes_loop existing l index taken d = .ok d' := by
  induction l generalizing taken index d with
  | nil => exact ⟨d, rfl⟩
  | cons node rest ih =>
      rw [List.map_cons, List.nodup_cons] at hnodup
      rw [add_nodes_loop,
        if_neg (by rw [(Dict.not_contains_iff d).mpr (hfresh node List.mem_cons_self)]; simp)]
      apply ih _ _ hnodup.2
      intro n hn
      have hne : node.id ≠ n.id := by
        intro heq
        exact hnodup.1 (heq ▸ List.mem_map_of_mem hn)
      rw [Dict.get?_set_ne d _ hne, hfresh n (List.mem_cons_of_mem _ hn)]

/-- Names that the node carries are not fresh. -/
theorem blank_names_of_carried {n : Node Sub} {updates : Dict String ParamValue}
    (h : ∀ name ∈ updates.keys, name ∈ n.params.map (·.name)) : n.blank_names updates = [] := by
  rw [Node.blank_names, List.filter_eq_nil_iff]
  intro name hname
  simp only [h name hname, not_true_eq_false, decide_false, Bool.false_and, Bool.false_eq_true,
    not_false_eq_true]

theorem Param.updated_name (updates : Dict String ParamValue) (p : Param) :
    (p.updated updates).name = p.name := by
  unfold Param.updated
  split <;> rfl

/-- Updating keeps the names that the node carries. -/
theorem mem_names_with_params {n : Node Sub} {updates : Dict String ParamValue} {name : String}
    (h : name ∈ n.params.map (·.name)) : name ∈ (n.with_params updates).params.map (·.name) := by
  obtain ⟨p, hp, rfl⟩ := List.mem_map.mp h
  rw [Node.with_params, updated_params, List.map_append, List.mem_append]
  exact .inl (List.mem_map.mpr ⟨p.updated updates, List.mem_map_of_mem hp, p.updated_name updates⟩)

/-- `d'` is `d` with the params of the listed nodes updated, every updated
node meeting its contract and no fresh name being blank. -/
structure ParamsSet (reg : NodeRegistry) (updates : List (String × Dict String ParamValue))
    (d d' : Dict String (Node Sub)) : Prop where
  here : ∀ e ∈ updates, ∃ n, d.get? e.1 = some n ∧ n.blank_names e.2 = [] ∧
    contract_errors reg (n.with_params e.2) = [] ∧ d'.get? e.1 = some (n.with_params e.2)
  frame : ∀ k ∉ updates.map Prod.fst, d'.get? k = d.get? k

theorem set_params_loop_cons {reg : NodeRegistry} {e : String × Dict String ParamValue}
    {rest : List (String × Dict String ParamValue)} {d d' : Dict String (Node Sub)} :
    set_params_loop reg (e :: rest) d = .ok d' ↔
      ∃ n, d.get? e.1 = some n ∧ n.blank_names e.2 = [] ∧
        contract_errors reg (n.with_params e.2) = [] ∧
        set_params_loop reg rest (d.set e.1 (n.with_params e.2)) = .ok d' := by
  obtain ⟨node_id, u⟩ := e
  rw [set_params_loop]
  cases hd : d.get? node_id with
  | none => simp
  | some n =>
      cases hb : n.blank_names u with
      | cons x xs => simp [hb]
      | nil =>
          cases hc : contract_errors reg (n.with_params u) with
          | nil => simp [hb, hc]
          | cons x xs => simp [hb, hc]

theorem set_params_loop_spec {reg : NodeRegistry}
    {updates : List (String × Dict String ParamValue)} {d d' : Dict String (Node Sub)}
    (hnodup : (updates.map Prod.fst).Nodup) (h : set_params_loop reg updates d = .ok d') :
    ParamsSet reg updates d d' := by
  induction updates generalizing d with
  | nil =>
      cases h
      exact ⟨by simp, fun _ _ => rfl⟩
  | cons e rest ih =>
      rw [List.map_cons, List.nodup_cons] at hnodup
      obtain ⟨n, hn, hb, hc, hrest⟩ := set_params_loop_cons.mp h
      have hset := ih hnodup.2 hrest
      constructor
      · intro e' he'
        rcases List.mem_cons.mp he' with rfl | he'
        · exact ⟨n, hn, hb, hc, by rw [hset.frame _ hnodup.1, Dict.get?_set_self]⟩
        · obtain ⟨n', hn', hrest'⟩ := hset.here e' he'
          have hne : e.1 ≠ e'.1 := by
            intro heq
            exact hnodup.1 (heq ▸ List.mem_map_of_mem he')
          exact ⟨n', by rwa [Dict.get?_set_ne d _ hne] at hn', hrest'⟩
      · intro k hk
        rw [List.map_cons, List.mem_cons, not_or] at hk
        rw [hset.frame k hk.2, Dict.get?_set_ne d _ (Ne.symm hk.1)]

theorem set_params_loop_exists {reg : NodeRegistry}
    {updates : List (String × Dict String ParamValue)} {d : Dict String (Node Sub)}
    (hnodup : (updates.map Prod.fst).Nodup)
    (hin : ∀ e ∈ updates, ∃ n, d.get? e.1 = some n ∧ n.blank_names e.2 = [] ∧
      contract_errors reg (n.with_params e.2) = []) :
    ∃ d', set_params_loop reg updates d = .ok d' := by
  induction updates generalizing d with
  | nil => exact ⟨d, rfl⟩
  | cons e rest ih =>
      rw [List.map_cons, List.nodup_cons] at hnodup
      obtain ⟨n, hn, hb, hc⟩ := hin e List.mem_cons_self
      obtain ⟨d', hd'⟩ := ih (d := d.set e.1 (n.with_params e.2)) hnodup.2 (by
        intro e' he'
        obtain ⟨n', hn', hc'⟩ := hin e' (List.mem_cons_of_mem _ he')
        have hne : e.1 ≠ e'.1 := by
          intro heq
          exact hnodup.1 (heq ▸ List.mem_map_of_mem he')
        exact ⟨n', by rw [Dict.get?_set_ne d _ hne, hn'], hc'⟩)
      exact ⟨d', set_params_loop_cons.mpr ⟨n, hn, hb, hc, hd'⟩⟩

/-! ## `apply_mutation` as a whole -/

/-- The intermediate maps of one run of `apply_mutation` and what each
phase did to them. -/
structure Applied (reg : NodeRegistry) (g : Graph Sub) (m : GraphMutation Sub)
    (kept placed : Dict String (Node Sub)) (kept_edges : Dict String Edge)
    (g' : Graph Sub) : Prop where
  removed : Dict.Removed m.remove_nodes g.nodes kept
  removed_edges : Dict.Removed m.remove_edges g.edges kept_edges
  added : Dict.Inserted (·.id) (place_nodes g.positions m.add_nodes 0 g.positions) kept placed
  added_edges : Dict.Inserted (·.id) m.add_edges kept_edges g'.edges
  params_set : ParamsSet reg m.set_params.entries placed g'.nodes
  header : g' = { g with nodes := g'.nodes, edges := g'.edges }
  valid : g'.Valid

theorem apply_mutation_spec {reg : NodeRegistry} {g g' : Graph Sub} {m : GraphMutation Sub}
    (h : apply_mutation reg g m = .ok g') :
    ∃ kept placed kept_edges, Applied reg g m kept placed kept_edges g' := by
  obtain ⟨kept, hkept, h⟩ := Checks.bind_eq_ok.mp h
  obtain ⟨kept_edges, hedges, h⟩ := Checks.bind_eq_ok.mp h
  obtain ⟨placed, hplaced, h⟩ := Checks.bind_eq_ok.mp h
  obtain ⟨edges, hadded, h⟩ := Checks.bind_eq_ok.mp h
  obtain ⟨nodes, hnodes, h⟩ := Checks.bind_eq_ok.mp h
  cases hv : ({ g with nodes := nodes, edges := edges } : Graph Sub).validate_structure with
  | error e => simp [hv] at h
  | ok u =>
      simp only [hv, Except.ok.injEq] at h
      subst h
      exact ⟨kept, placed, kept_edges, remove_ids_spec hkept, remove_ids_spec hedges,
        add_nodes_loop_spec hplaced, add_edges_loop_spec hadded,
        set_params_loop_spec m.set_params.nodup hnodes, rfl,
        Graph.validate_structure_eq_ok.mp hv⟩

theorem apply_mutation_eq_ok {reg : NodeRegistry} {g : Graph Sub} {m : GraphMutation Sub}
    {kept placed nodes : Dict String (Node Sub)} {kept_edges edges : Dict String Edge}
    (hkept : remove_ids .remove_node m.remove_nodes g.nodes = .ok kept)
    (hedges : remove_ids .remove_edge m.remove_edges g.edges = .ok kept_edges)
    (hplaced : add_nodes_loop g.positions m.add_nodes 0 g.positions kept = .ok placed)
    (hadded : add_edges_loop m.add_edges kept_edges = .ok edges)
    (hnodes : set_params_loop reg m.set_params.entries placed = .ok nodes)
    (hv : ({ g with nodes := nodes, edges := edges } : Graph Sub).Valid) :
    apply_mutation reg g m = .ok { g with nodes := nodes, edges := edges } := by
  simp only [apply_mutation, hkept, hedges, hplaced, hadded, hnodes, Bind.bind, Except.bind,
    Graph.validate_structure_eq_ok.mpr hv]

end EmergentFlow
