import EmergentFlow.Lib.Worklist
import EmergentFlow.Research.Lineage

/-!
# Research — Impact

The forward column trace (`trace_column_impact` of `research/lineage.py`):
sets of columns are pushed from a node along every edge, in topological
order, and reported node by node.
-/

namespace EmergentFlow

variable {Sub : Type}

/-! ## The nodes downstream -/

/-- `children[node_id]`. -/
def Graph.children (g : Graph Sub) (node_id : String) : List String :=
  Kahn.successors g.links node_id

/-- The node and all that edges lead to from it. -/
def downstream_nodes (g : Graph Sub) (node_id : String) : List String :=
  Worklist.run g.children (1 + (g.nodes.keys.map fun n => (g.children n).length).sum) [node_id] []

/-- `downstream_order`. -/
def downstream_order (g : Graph Sub) (node_id : String) : List String :=
  (trace_order g).filter fun n => n ∈ downstream_nodes g node_id ∨ n = node_id

/-! ## The columns that reach them -/

/-- The columns reaching each node, as far as that is known. -/
abbrev ColumnReach := Dict String (List String)

/-- What the incoming edges of a node collect. -/
def ColumnReach.collect (reach : ColumnReach) (g : Graph Sub) (node_id : String) : List String :=
  (g.incoming_edges node_id).foldl (fun collected edge =>
    match reach.get? edge.1 with
    | some outs => collected ∪ outs
    | none => collected) []

section Impact

variable (parse : String → Option PyExpr) (effects : String → Option ColumnEffectKind)

/-- A derived column whose definition refers to one of these joins them. -/
def add_derived (columns : List String) (spec : ParamValue) : List String :=
  match spec.derived_name with
  | some name =>
      if derive_spec_source_cols parse spec ∩ columns ≠ [] then columns.insert name else columns
  | none => columns

/-- The columns on the output of a node, of those it collects. -/
def Node.output_columns (node : Node Sub) (collected : List String) : List String :=
  let surviving := surviving_columns node collected
  if node.type = DERIVE_COLUMN then node.derive_specs.foldl (add_derived parse) surviving
  else surviving

/-- One round of the propagation. -/
def propagate (g : Graph Sub) (start : String) (reach : ColumnReach) (node_id : String) :
    ColumnReach :=
  if node_id = start then reach
  else
    match g.nodes.get? node_id with
    | none => reach
    | some node => reach.set node_id (node.output_columns parse (reach.collect g node_id))

/-- `reach`, after the whole propagation. -/
def column_reach (g : Graph Sub) (start column : String) : ColumnReach :=
  (downstream_order g start).foldl (propagate parse g start) (Dict.empty.set start [column])

/-! ## The report -/

/-- `detail` of the entry of a node that the seed column does not reach. -/
def no_seed : String := "no seed column reaches this node"

/-- The role of a column that reaches a node. -/
def impact_role (g : Graph Sub) (observed : Observed) (node_id : String) (node : Node Sub)
    (column : String) : ColumnRole :=
  match resolve_column parse effects g node column with
  | some resolved => resolved.1
  | none => if column ∈ observed.of node_id then .SOURCE else .UNKNOWN

/-- The entry of a derived column that refers to one of these. -/
def derived_entry (node_id : String) (node : Node Sub) (columns : List String) (spec : ParamValue) :
    Option ColumnLineageNode :=
  spec.derived_name.bind fun name =>
    let shared := sorted_set (derive_spec_source_cols parse spec ∩ columns)
    if shared ≠ [] then some {
      node_id, node_type := node.type, label := node.label, column := name, role := .DERIVED
      source_column := shared.head?
      detail := some ("derived from " ++ ", ".intercalate shared) }
    else none

/-- The entries of one node downstream of the start. -/
def impact_entries (g : Graph Sub) (observed : Observed) (node_id : String) (node : Node Sub)
    (columns : List String) : List ColumnLineageNode :=
  if columns = [] then [{
    node_id, node_type := node.type, label := node.label, column := "", role := .UNKNOWN
    detail := some no_seed }]
  else
    (sorted_set columns).map (fun column => {
      node_id, node_type := node.type, label := node.label, column
      role := impact_role parse effects g observed node_id node column }) ++
    if node.type = DERIVE_COLUMN then
      node.derive_specs.filterMap (derived_entry parse node_id node columns)
    else []

/-- `nodes_by_id[node_id]`. -/
def node_entries (g : Graph Sub) (observed : Observed) (start column : String)
    (reach : ColumnReach) (node_id : String) : List ColumnLineageNode :=
  match g.nodes.get? node_id with
  | none => []
  | some node =>
      if node_id = start then
        [{ node_id, node_type := node.type, label := node.label, column, role := .SOURCE }]
      else impact_entries parse effects g observed node_id node ((reach.get? node_id).getD [])

/-- The edges reported into one node: one for each column that reaches both
of its ends. -/
def impact_edges (g : Graph Sub) (reach : ColumnReach) (node_id : String) :
    List ColumnLineageEdge :=
  (g.incoming_edges node_id).flatMap fun edge =>
    match reach.get? edge.1 with
    | none => []
    | some outs =>
        (sorted_set (outs ∩ (reach.get? node_id).getD [])).map fun sc =>
          ⟨edge.1, sc, node_id, sc, .PASSTHROUGH⟩

/-- `trace_column_impact`. -/
def trace_column_impact (g : Graph Sub) (node_id column : String) (observed : Observed) :
    Except LineageError ColumnLineage := do
  Checks.guard (g.nodes.contains node_id)
    (.unknown_node node_id (g.nodes.keys.insertionSort (· ≤ ·)))
  let order := downstream_order g node_id
  let reach := column_reach parse g node_id column
  pure (.ordered order node_id column
    (order.flatMap (node_entries parse effects g observed node_id column reach))
    (order.flatMap (impact_edges g reach)))

end Impact

/-! ## What the propagation computes -/

variable {parse : String → Option PyExpr} {effects : String → Option ColumnEffectKind}
  {g : Graph Sub} {observed : Observed} {start column : String}

theorem mem_downstream_nodes (hv : g.Valid) {n : String} :
    n ∈ downstream_nodes g start ↔ Relation.ReflTransGen g.Feeds start n := by
  have hstep : Worklist.Step g.children = g.Feeds := by
    funext a b
    exact propext Kahn.mem_successors
  rw [downstream_nodes, Worklist.mem_run_iff g.nodes.nodup_keys _ le_rfl, hstep]
  intro a ha
  obtain ⟨b, hb⟩ := List.exists_mem_of_ne_nil _ ha
  exact (hv.mem_keys (Kahn.mem_successors.mp hb)).1

theorem ColumnReach.mem_collect {reach : ColumnReach} {n c : String} :
    c ∈ reach.collect g n ↔ ∃ q outs, g.Feeds q n ∧ reach.get? q = some outs ∧ c ∈ outs := by
  have hfold : ∀ (edges : List (String × String × String)) (collected : List String),
      c ∈ edges.foldl (fun collected edge => match reach.get? edge.1 with
          | some outs => collected ∪ outs
          | none => collected) collected ↔
        c ∈ collected ∨ ∃ edge ∈ edges, ∃ outs, reach.get? edge.1 = some outs ∧ c ∈ outs := by
    intro edges
    induction edges with
    | nil => simp
    | cons edge edges ih =>
        intro collected
        rw [List.foldl_cons, ih]
        cases hget : reach.get? edge.1 with
        | none => simp [hget]
        | some outs => simp [hget, or_assoc]
  rw [ColumnReach.collect, hfold]
  simp only [List.not_mem_nil, false_or, Graph.feeds_iff_incoming]
  constructor
  · rintro ⟨⟨q, ports⟩, hedge, outs, hget, hc⟩
    exact ⟨q, outs, ⟨ports, hedge⟩, hget, hc⟩
  · rintro ⟨q, outs, ⟨ports, hedge⟩, hget, hc⟩
    exact ⟨(q, ports), hedge, outs, hget, hc⟩

theorem mem_add_derived {columns : List String} {spec : ParamValue} {c : String} :
    c ∈ add_derived parse columns spec ↔ c ∈ columns ∨
      (spec.derived_name = some c ∧ ∃ r ∈ derive_spec_source_cols parse spec, r ∈ columns) := by
  have hne : ∀ {l l' : List String}, l ∩ l' ≠ [] ↔ ∃ r ∈ l, r ∈ l' := by
    intro l l'
    rw [ne_eq, List.eq_nil_iff_forall_not_mem]
    simp
  unfold add_derived
  cases spec.derived_name with
  | none => simp
  | some name =>
      simp only [Option.some.injEq]
      split
      · rename_i h
        rw [List.mem_insert_iff, or_comm, eq_comm]
        simp [hne.mp h]
      · rename_i h
        simp [hne.not.mp h]

/-- The columns that survive are on the output. -/
theorem mem_output_columns_of_surviving {node : Node Sub} {collected : List String} {c : String}
    (h : c ∈ surviving_columns node collected) : c ∈ node.output_columns parse collected := by
  have hfold : ∀ (specs : List ParamValue) (columns : List String), c ∈ columns →
      c ∈ specs.foldl (add_derived parse) columns := by
    intro specs
    induction specs with
    | nil => exact fun _ hc => hc
    | cons spec specs ih => exact fun columns hc => ih _ (mem_add_derived.mpr (.inl hc))
  unfold Node.output_columns
  split
  · exact hfold _ _ h
  · exact h

/-- A derived column that refers to a collected one is on the output. -/
theorem mem_output_columns_of_derived {node : Node Sub} {collected : List String}
    {spec : ParamValue} {name r : String} (htype : node.type = DERIVE_COLUMN)
    (hspec : spec ∈ node.derive_specs) (hname : spec.derived_name = some name)
    (hr : r ∈ derive_spec_source_cols parse spec) (hcollected : r ∈ collected) :
    name ∈ node.output_columns parse collected := by
  have hsurvives : surviving_columns node collected = collected := by
    rw [surviving_columns, htype, if_neg (by decide)]
  have hfold : ∀ (specs : List ParamValue) (columns : List String), r ∈ columns →
      (spec ∈ specs ∨ name ∈ columns) → name ∈ specs.foldl (add_derived parse) columns := by
    intro specs
    induction specs with
    | nil =>
        rintro columns - (h | h)
        · cases h
        · exact h
    | cons first specs ih =>
        intro columns hmem h
        refine ih _ (mem_add_derived.mpr (.inl hmem)) ?_
        rcases h with h | h
        · rcases List.mem_cons.mp h with rfl | h
          · exact .inr (mem_add_derived.mpr (.inr ⟨hname, r, hr, hmem⟩))
          · exact .inl h
        · exact .inr (mem_add_derived.mpr (.inl h))
  rw [Node.output_columns, if_pos htype, hsurvives]
  exact hfold _ _ hcollected (.inl hspec)

/-! ## The equations of the propagation -/

/-- After the nodes of `done`: the start holds its column, and every other
node of `done` what it makes of what it collects. -/
structure ReachInv (parse : String → Option PyExpr) (g : Graph Sub) (start column : String)
    (done : List String) (reach : ColumnReach) : Prop where
  seed : reach.get? start = some [column]
  output : ∀ n ∈ done, n ≠ start → ∀ node, g.nodes.get? n = some node →
    reach.get? n = some (node.output_columns parse (reach.collect g n))
  domain : ∀ n outs, reach.get? n = some outs → n = start ∨ n ∈ done

/-- Setting a node that feeds none of these leaves what they collect. -/
theorem ColumnReach.collect_set {reach : ColumnReach} {n m : String} {outs : List String}
    (h : ¬ g.Feeds n m) : ColumnReach.collect (reach.set n outs) g m = reach.collect g m := by
  unfold ColumnReach.collect
  have hne : ∀ edge ∈ g.incoming_edges m, n ≠ edge.1 := by
    rintro edge hedge rfl
    exact h (Graph.feeds_iff_incoming.mpr ⟨edge.2, hedge⟩)
  generalize [] = collected
  generalize g.incoming_edges m = edges at hne
  induction edges generalizing collected with
  | nil => rfl
  | cons edge edges ih =>
      simp only [List.foldl_cons, Dict.get?_set_ne _ _ (hne edge List.mem_cons_self)]
      exact ih _ fun e he => hne e (List.mem_cons_of_mem _ he)

/-- One round extends the equations by a node that feeds no earlier one. -/
theorem ReachInv.propagate {done : List String} {reach : ColumnReach} {n : String}
    (h : ReachInv parse g start column done reach) (hfresh : n ∉ done)
    (hlater : ∀ m ∈ done ++ [n], ¬ g.Feeds n m) :
    ReachInv parse g start column (done ++ [n]) (propagate parse g start reach n) := by
  rw [EmergentFlow.propagate]
  split
  · rename_i hstart
    refine ⟨h.seed, ?_, fun m outs hm => (h.domain m outs hm).imp_right (List.mem_append_left _)⟩
    intro m hm hne
    rcases List.mem_append.mp hm with hm | hm
    · exact h.output m hm hne
    · exact absurd ((List.mem_singleton.mp hm).trans hstart) hne
  · rename_i hstart
    split
    · rename_i hnone
      refine ⟨h.seed, ?_,
        fun m outs hm => (h.domain m outs hm).imp_right (List.mem_append_left _)⟩
      intro m hm hne node hnode
      rcases List.mem_append.mp hm with hm | hm
      · exact h.output m hm hne node hnode
      · rw [List.mem_singleton.mp hm, hnone] at hnode
        cases hnode
    · rename_i node hget
      refine ⟨?_, ?_, ?_⟩
      · rw [Dict.get?_set_ne _ _ hstart]
        exact h.seed
      · intro m hm hne node' hnode'
        -- no node that is done reads from this one, so what they collect stays
        rw [ColumnReach.collect_set (hlater m hm)]
        rcases List.mem_append.mp hm with hm | hm
        · have hmn : n ≠ m := fun heq => hfresh (heq ▸ hm)
          rw [Dict.get?_set_ne _ _ hmn]
          exact h.output m hm hne node' hnode'
        · rw [List.mem_singleton.mp hm] at hnode' ⊢
          rw [hget, Option.some.injEq] at hnode'
          rw [Dict.get?_set_self, hnode']
      · intro m outs hm
        by_cases hmn : m = n
        · exact .inr (List.mem_append_right _ (List.mem_singleton.mpr hmn))
        · rw [Dict.get?_set_ne _ _ (Ne.symm hmn)] at hm
          exact (h.domain m outs hm).imp_right (List.mem_append_left _)

theorem ReachInv.foldl {todo done : List String} {reach : ColumnReach}
    (h : ReachInv parse g start column done reach) (hnodup : (done ++ todo).Nodup)
    (hforward : (done ++ todo).Pairwise fun a b => ¬ g.Feeds b a)
    (hloop : ∀ n, ¬ g.Feeds n n) :
    ReachInv parse g start column (done ++ todo)
      (todo.foldl (EmergentFlow.propagate parse g start) reach) := by
  induction todo generalizing done reach with
  | nil => simpa using h
  | cons n todo ih =>
      have happend : done ++ n :: todo = (done ++ [n]) ++ todo := by simp
      have hfresh : n ∉ done := fun hmem =>
        (List.nodup_append.mp hnodup).2.2 n hmem n List.mem_cons_self rfl
      have hlater : ∀ m ∈ done ++ [n], ¬ g.Feeds n m := by
        intro m hm
        rcases List.mem_append.mp hm with hm | hm
        · exact (List.pairwise_append.mp hforward).2.2 m hm n List.mem_cons_self
        · rw [List.mem_singleton.mp hm]
          exact hloop n
      rw [happend] at hnodup hforward ⊢
      exact ih (h.propagate hfresh hlater) hnodup hforward

/-- On an acyclic graph the nodes downstream are listed in a forward order. -/
theorem downstream_order_spec (hv : g.Valid) (hacyclic : Closure.Acyclic g.Feeds)
    (hstart : start ∈ g.nodes.keys) :
    (downstream_order g start).Nodup ∧
      (downstream_order g start).Pairwise (fun a b => ¬ g.Feeds b a) ∧
      ∀ n, n ∈ downstream_order g start ↔ Relation.ReflTransGen g.Feeds start n := by
  obtain ⟨order, horder⟩ := topological_sort_of_acyclic hv hacyclic
  obtain ⟨hperm, hrespects⟩ := topological_sort_eq_ok hv horder
  have hnodup : order.Nodup := hperm.nodup_iff.mpr g.nodes.nodup_keys
  have htrace : trace_order g = order := by rw [trace_order, horder]
  rw [downstream_order, htrace]
  refine ⟨hnodup.filter _, (hrespects.pairwise hnodup).filter _, fun n => ?_⟩
  simp only [List.mem_filter, decide_eq_true_eq, mem_downstream_nodes hv, hperm.mem_iff]
  constructor
  · rintro ⟨-, hpath | rfl⟩
    · exact hpath
    · exact .refl
  · intro hpath
    refine ⟨?_, .inl hpath⟩
    rcases hpath.cases_tail with rfl | ⟨m, -, hfeeds⟩
    · exact hstart
    · exact (hv.mem_keys hfeeds).2

/-- On an acyclic graph the propagation solves its equations. -/
theorem column_reach_inv (parse : String → Option PyExpr) (hv : g.Valid)
    (hacyclic : Closure.Acyclic g.Feeds) (hstart : start ∈ g.nodes.keys) (column : String) :
    ReachInv parse g start column (downstream_order g start)
      (column_reach parse g start column) := by
  obtain ⟨hnodup, hforward, -⟩ := downstream_order_spec hv hacyclic hstart
  have hinit : ReachInv parse g start column [] (Dict.empty.set start [column]) := by
    refine ⟨Dict.get?_set_self .., by simp, fun n outs h => ?_⟩
    by_contra hne
    rw [not_or] at hne
    rw [Dict.get?_set_ne _ _ (Ne.symm hne.1)] at h
    cases h
  exact hinit.foldl hnodup hforward fun n h => hacyclic n (.single h)

/-! ## What a report holds -/

/-- The column reaches the node. -/
def Reaches (parse : String → Option PyExpr) (g : Graph Sub) (start column : String)
    (q : NodeColumn) : Prop :=
  ∃ outs, (column_reach parse g start column).get? q.1 = some outs ∧ q.2 ∈ outs

/-- A derived column of `q.1` refers to a column that reaches it. -/
def RefersTo (parse : String → Option PyExpr) (g : Graph Sub) (start column : String)
    (q : NodeColumn) : Prop :=
  ∃ node, g.nodes.get? q.1 = some node ∧ node.type = DERIVE_COLUMN ∧
    ∃ spec ∈ node.derive_specs, spec.derived_name = some q.2 ∧
      ∃ r ∈ derive_spec_source_cols parse spec, Reaches parse g start column (q.1, r)

/-- An entry says that its column is impacted, unless it says that none is. -/
def ColumnLineageNode.Impacted (entry : ColumnLineageNode) : Prop := entry.detail ≠ some no_seed

theorem derived_detail_ne (text : String) : "derived from " ++ text ≠ no_seed := by
  intro h
  have hchars := congrArg String.toList h
  rw [String.toList_append] at hchars
  have hhead := congrArg List.head? hchars
  rw [List.head?_append_of_ne_nil _ (by decide)] at hhead
  exact absurd hhead (by decide)

theorem mem_filterMap_derived_entry {n : String} {node : Node Sub} {columns : List String}
    {q : NodeColumn} :
    (∃ entry ∈ node.derive_specs.filterMap (derived_entry parse n node columns),
        entry.Impacted ∧ entry.key = q) ↔
      q.1 = n ∧ ∃ spec ∈ node.derive_specs, spec.derived_name = some q.2 ∧
        ∃ r ∈ derive_spec_source_cols parse spec, r ∈ columns := by
  have hshared : ∀ spec, sorted_set (derive_spec_source_cols parse spec ∩ columns) ≠ [] ↔
      ∃ r ∈ derive_spec_source_cols parse spec, r ∈ columns := by
    intro spec
    rw [ne_eq, List.eq_nil_iff_forall_not_mem]
    simp [mem_sorted_set]
  simp only [List.mem_filterMap, derived_entry, Option.bind_eq_some_iff]
  constructor
  · rintro ⟨entry, ⟨spec, hspec, name, hname, hentry⟩, -, rfl⟩
    split at hentry
    · rename_i h
      cases hentry
      exact ⟨rfl, spec, hspec, hname, (hshared spec).mp h⟩
    · cases hentry
  · rintro ⟨rfl, spec, hspec, hname, hr⟩
    refine ⟨_, ⟨spec, hspec, q.2, hname, if_pos ((hshared spec).mpr hr)⟩, ?_, rfl⟩
    exact fun h => derived_detail_ne _ (Option.some.inj h)

/-- The impacted columns of one node downstream. -/
theorem mem_impact_entries {n : String} {node : Node Sub} {columns : List String}
    {q : NodeColumn} :
    (∃ entry ∈ impact_entries parse effects g observed n node columns,
        entry.Impacted ∧ entry.key = q) ↔
      q.1 = n ∧ (q.2 ∈ columns ∨ (node.type = DERIVE_COLUMN ∧ ∃ spec ∈ node.derive_specs,
        spec.derived_name = some q.2 ∧ ∃ r ∈ derive_spec_source_cols parse spec, r ∈ columns)) := by
  unfold impact_entries
  split
  · rename_i hnil
    subst hnil
    simp [ColumnLineageNode.Impacted]
  · simp only [List.mem_append, or_and_right, exists_or]
    rw [and_or_left]
    apply or_congr
    · simp only [List.mem_map, mem_sorted_set]
      constructor
      · rintro ⟨_, ⟨c, hc, rfl⟩, -, rfl⟩
        exact ⟨rfl, hc⟩
      · rintro ⟨rfl, hc⟩
        exact ⟨_, ⟨q.2, hc, rfl⟩, by simp [ColumnLineageNode.Impacted], rfl⟩
    · split
      · rename_i htype
        rw [mem_filterMap_derived_entry]
        simp [htype]
      · rename_i htype
        simp [htype]

theorem reaches_iff_getD {q : NodeColumn} : Reaches parse g start column q ↔
    q.2 ∈ ((column_reach parse g start column).get? q.1).getD [] := by
  unfold Reaches
  cases (column_reach parse g start column).get? q.1 <;> simp

/-- The impacted columns of one node of the report. -/
theorem mem_node_entries (effects : String → Option ColumnEffectKind) (observed : Observed)
    {n : String} {node : Node Sub} (hnode : g.nodes.get? n = some node)
    {q : NodeColumn} :
    (∃ entry ∈ node_entries parse effects g observed start column
        (column_reach parse g start column) n, entry.Impacted ∧ entry.key = q) ↔
      q.1 = n ∧ (q = (start, column) ∨ (q.1 ≠ start ∧
        (Reaches parse g start column q ∨ RefersTo parse g start column q))) := by
  unfold node_entries
  simp only [hnode]
  split
  · rename_i hstart
    subst hstart
    simp only [List.mem_singleton, exists_eq_left]
    constructor
    · rintro ⟨-, rfl⟩
      exact ⟨rfl, .inl rfl⟩
    · rintro ⟨hq, rfl | ⟨hne, -⟩⟩
      · exact ⟨by simp [ColumnLineageNode.Impacted], rfl⟩
      · exact absurd hq hne
  · rename_i hstart
    rw [mem_impact_entries]
    constructor
    · rintro ⟨rfl, h⟩
      refine ⟨rfl, .inr ⟨hstart, ?_⟩⟩
      rcases h with h | ⟨htype, spec, hspec, hname, r, hr, hmem⟩
      · exact .inl (reaches_iff_getD.mpr h)
      · exact .inr ⟨node, hnode, htype, spec, hspec, hname, r, hr, reaches_iff_getD.mpr hmem⟩
    · rintro ⟨rfl, rfl | ⟨-, h⟩⟩
      · exact absurd rfl hstart
      · refine ⟨rfl, ?_⟩
        rcases h with h | ⟨node', hnode', htype, spec, hspec, hname, r, hr, hmem⟩
        · exact .inl (reaches_iff_getD.mp h)
        · rw [hnode, Option.some.injEq] at hnode'
          subst hnode'
          exact .inr ⟨htype, spec, hspec, hname, r, hr, reaches_iff_getD.mp hmem⟩

/-- The edges of the report into one node. -/
theorem mem_impact_edges {n : String} {edge : ColumnLineageEdge} :
    edge ∈ impact_edges g (column_reach parse g start column) n ↔
      edge.target_node_id = n ∧ g.Feeds edge.source_node_id n ∧
        edge.source_column = edge.target_column ∧ edge.role = .PASSTHROUGH ∧
        Reaches parse g start column (edge.source_node_id, edge.source_column) ∧
        Reaches parse g start column (n, edge.target_column) := by
  simp only [impact_edges, List.mem_flatMap, Graph.feeds_iff_incoming]
  constructor
  · rintro ⟨⟨a, ports⟩, hedge, hmem⟩
    split at hmem
    · cases hmem
    · rename_i outs hget
      obtain ⟨sc, hsc, rfl⟩ := List.mem_map.mp hmem
      rw [mem_sorted_set, List.mem_inter_iff] at hsc
      exact ⟨rfl, ⟨ports, hedge⟩, rfl, rfl, ⟨outs, hget, hsc.1⟩, reaches_iff_getD.mpr hsc.2⟩
  · obtain ⟨a, sc, b, tc, role⟩ := edge
    rintro ⟨rfl, ⟨ports, hedge⟩, hcols, hrole, ⟨outs, hget, hsource⟩, htarget⟩
    obtain rfl : sc = tc := hcols
    obtain rfl : role = .PASSTHROUGH := hrole
    refine ⟨(a, ports), hedge, ?_⟩
    simp only [hget, List.mem_map, mem_sorted_set, List.mem_inter_iff]
    exact ⟨sc, ⟨hsource, reaches_iff_getD.mp htarget⟩, rfl⟩

/-- On an acyclic graph the forward trace returns. It reports as impacted
the start and what reaches the other nodes, or is derived from that there;
and its edges join what reaches both of their ends. -/
theorem trace_column_impact_report (effects : String → Option ColumnEffectKind)
    (observed : Observed) (hv : g.Valid) (hacyclic : Closure.Acyclic g.Feeds)
    (hstart : start ∈ g.nodes.keys) (column : String) :
    ∃ impact, trace_column_impact parse effects g start column observed = .ok impact ∧
      (∀ q, (∃ entry ∈ impact.nodes, entry.Impacted ∧ entry.key = q) ↔
        q = (start, column) ∨ (q.1 ≠ start ∧
          (Reaches parse g start column q ∨ RefersTo parse g start column q))) ∧
      ∀ edge, edge ∈ impact.edges ↔
        g.Feeds edge.source_node_id edge.target_node_id ∧
          edge.source_column = edge.target_column ∧ edge.role = .PASSTHROUGH ∧
          Reaches parse g start column (edge.source_node_id, edge.source_column) ∧
          Reaches parse g start column (edge.target_node_id, edge.target_column) := by
  obtain ⟨-, -, horder⟩ := downstream_order_spec hv hacyclic hstart
  have hinv := column_reach_inv parse hv hacyclic hstart column
  have hdomain : ∀ {n outs}, (column_reach parse g start column).get? n = some outs →
      n ∈ downstream_order g start := by
    intro n outs h
    rcases hinv.domain n outs h with rfl | h
    · exact (horder n).mpr .refl
    · exact h
  -- what is downstream of a node of the graph is a node of the graph
  have hkeys : ∀ n ∈ downstream_order g start, ∃ node, g.nodes.get? n = some node := by
    intro n hn
    rw [← Dict.mem_keys_iff]
    rcases ((horder n).mp hn).cases_tail with rfl | ⟨m, -, hfeeds⟩
    · exact hstart
    · exact (hv.mem_keys hfeeds).2
  have hcontains : g.nodes.contains start = true :=
    (Dict.contains_iff _).mpr ((Dict.mem_keys_iff _).mp hstart)
  refine ⟨_, Checks.then_eq_ok.mpr ⟨Checks.guard_eq_ok.mpr hcontains, rfl⟩, fun q => ?_,
    fun edge => ?_⟩
  · simp only [ColumnLineage.ordered, List.mem_insertionSort, List.mem_flatMap]
    constructor
    · rintro ⟨entry, ⟨n, hn, hentry⟩, himpacted, hkey⟩
      obtain ⟨node, hnode⟩ := hkeys n hn
      exact ((mem_node_entries effects observed hnode).mp ⟨entry, hentry, himpacted, hkey⟩).2
    · intro h
      have hq : q.1 ∈ downstream_order g start := by
        rcases h with rfl | ⟨-, ⟨outs, hget, -⟩ | ⟨_, _, -, _, _, -, _, -, outs, hget, -⟩⟩
        · exact (horder start).mpr .refl
        · exact hdomain hget
        · exact hdomain hget
      obtain ⟨node, hnode⟩ := hkeys q.1 hq
      obtain ⟨entry, hentry, himpacted, hkey⟩ :=
        (mem_node_entries effects observed hnode).mpr ⟨rfl, h⟩
      exact ⟨entry, ⟨q.1, hq, hentry⟩, himpacted, hkey⟩
  · simp only [ColumnLineage.ordered, List.mem_insertionSort, List.mem_flatMap, mem_impact_edges]
    constructor
    · rintro ⟨n, -, rfl, h⟩
      exact h
    · rintro ⟨hfeeds, hcols, hrole, hsource, htarget⟩
      obtain ⟨outs, hget, hmem⟩ := htarget
      exact ⟨edge.target_node_id, hdomain hget, rfl, hfeeds, hcols, hrole, hsource, outs, hget, hmem⟩

end EmergentFlow
