import EmergentFlow.Lib.Closure
import EmergentFlow.Lib.DepthFirst
import EmergentFlow.Research.Columns

/-!
# Research — Lineage

The backward column trace (`trace_column_lineage` of
`research/lineage.py`): from a column of a node, through the frame input of
one node after another, to where the column comes from.
-/

namespace EmergentFlow

/-! ## Reports -/

/-- `ColumnLineageNode`. -/
structure ColumnLineageNode where
  node_id : String
  node_type : String
  label : Option String
  column : String
  role : ColumnRole
  source_column : Option String := none
  detail : Option String := none
  deriving DecidableEq, Repr

/-- `ColumnLineageEdge`. -/
structure ColumnLineageEdge where
  source_node_id : String
  source_column : String
  target_node_id : String
  target_column : String
  role : ColumnRole
  deriving DecidableEq, Repr

/-- `ColumnLineage`. -/
structure ColumnLineage where
  target_node_id : String
  target_column : String
  nodes : List ColumnLineageNode := []
  edges : List ColumnLineageEdge := []
  deriving DecidableEq, Repr

/-- What the traces raise: `UnknownNodeError`, the `KeyError` of a node
that an edge names and the graph lacks, and the end of the fuel. -/
inductive LineageError where
  | unknown_node (node_id : String) (known : List String)
  | missing_node (node_id : String)
  | recursion
  deriving DecidableEq, Repr

/-- A column of a node. -/
abbrev NodeColumn := String × String

def ColumnLineageNode.key (entry : ColumnLineageNode) : NodeColumn := (entry.node_id, entry.column)

/-- The observed output columns of each node, from the last run. -/
abbrev Observed := Option (Dict String (List String))

/-- `observed.get(node_id, ())`. -/
def Observed.of (observed : Observed) (node_id : String) : List String :=
  (observed.bind (·.get? node_id)).getD []

variable {Sub : Type}

/-! ## Order -/

/-- The topological order, or that of insertion when there is none. -/
def trace_order (g : Graph Sub) : List String :=
  match topological_sort g with
  | .ok order => order
  | .error _ => g.nodes.keys

/-- The order of edges in a report. -/
def ColumnLineageEdge.le (order : List String) (a b : ColumnLineageEdge) : Bool :=
  let source := order.idxOf a.source_node_id
  let source' := order.idxOf b.source_node_id
  let target := order.idxOf a.target_node_id
  let target' := order.idxOf b.target_node_id
  source < source' || (source = source' && (target < target' || (target = target' &&
    a.source_column ≤ b.source_column)))

/-- A report: its entries and edges in the given order of the nodes. -/
def ColumnLineage.ordered (order : List String) (node_id column : String)
    (nodes : List ColumnLineageNode) (edges : List ColumnLineageEdge) : ColumnLineage where
  target_node_id := node_id
  target_column := column
  nodes := nodes.insertionSort fun a b => order.idxOf a.node_id ≤ order.idxOf b.node_id
  edges := edges.insertionSort fun a b => a.le order b = true

/-! ## The walk -/

section Trace

variable (parse : String → Option PyExpr) (effects : String → Option ColumnEffectKind)

/-- The entry of a resolved column. -/
def resolved_entry (node_id : String) (node : Node Sub) (column : String) (role : ColumnRole)
    (source_cols : List String) : ColumnLineageNode where
  node_id := node_id
  node_type := node.type
  label := node.label
  column := column
  role := role
  source_column := source_cols.head?
  detail := if role = .DERIVED ∧ source_cols ≠ [] then
    some ("derived from " ++ ", ".intercalate source_cols) else none

/-- The entry of a column that is not resolved: one seen in the last run is
a source, unless custom code produced it. -/
def unresolved_entry (observed : Observed) (node_id : String) (node : Node Sub) (column : String) :
    ColumnLineageNode :=
  if node.type ≠ "script.custom_code" ∧ column ∈ observed.of node_id then {
    node_id, node_type := node.type, label := node.label, column, role := .SOURCE
    detail := some "observed in last run (column not statically declared)" }
  else {
    node_id, node_type := node.type, label := node.label, column, role := .UNKNOWN
    detail := some "column not resolvable from static declaration" }

/-- What `walk` does at a column of a node, its recursive calls as links. -/
def column_visit (g : Graph Sub) (observed : Observed) (node_id : String) (node : Node Sub)
    (column : String) : DepthFirst.Visit NodeColumn ColumnLineageNode ColumnLineageEdge :=
  match resolve_column parse effects g node column with
  | none => { entry := unresolved_entry observed node_id node column }
  | some (role, source_cols) =>
      let entry := resolved_entry node_id node column role source_cols
      if role = .SOURCE ∨ source_cols = [] then { entry }
      else
        match frame_predecessor g node with
        | none =>
            -- with no input the column is the node's own, with several its origin is open
            if (g.incoming_edges node_id).isEmpty then { entry }
            else { entry := {
              node_id, node_type := node.type, label := node.label, column, role := .UNKNOWN
              detail := some "column flows from multiple upstream inputs; origin ambiguous" } }
        | some pred => {
            entry
            links := source_cols.map fun sc =>
              (⟨pred, sc, node_id, column, role⟩, (pred, sc)) }

/-- One call of `walk`. -/
def visit_column (g : Graph Sub) (observed : Observed) (p : NodeColumn) :
    Except LineageError (DepthFirst.Visit NodeColumn ColumnLineageNode ColumnLineageEdge) := do
  let node ← Checks.require (g.nodes.get? p.1) (.missing_node p.1)
  pure (column_visit parse effects g observed p.1 node p.2)

/-- The columns the graph's derived columns refer to. -/
def derive_refs (g : Graph Sub) : List String :=
  g.nodes.values.flatMap fun node => node.derive_specs.flatMap (derive_spec_source_cols parse)

/-- More than there are columns of nodes to visit. -/
def walk_fuel (g : Graph Sub) : Nat := g.nodes.size * (1 + (derive_refs parse g).length) + 1

/-- `trace_column_lineage`. -/
def trace_column_lineage (g : Graph Sub) (node_id column : String) (observed : Observed) :
    Except LineageError ColumnLineage := do
  Checks.guard (g.nodes.contains node_id)
    (.unknown_node node_id (g.nodes.keys.insertionSort (· ≤ ·)))
  let st ← DepthFirst.walk (visit_column parse effects g observed) .recursion (walk_fuel parse g)
    (node_id, column) {}
  let order := trace_order g
  let order := if node_id ∈ order then order else order ++ [node_id]
  pure (.ordered order node_id column st.entries st.edges)

/-! ## What a trace finds -/

/-- Column `q` is an input of column `p`: it is in the frame input of its
node, and `p` is made from it. -/
def ComesFrom (g : Graph Sub) (p q : NodeColumn) : Prop :=
  ∃ node role cols, g.nodes.get? p.1 = some node ∧
    resolve_column parse effects g node p.2 = some (role, cols) ∧ role ≠ .SOURCE ∧ q.2 ∈ cols ∧
      frame_predecessor g node = some q.1

end Trace

variable {parse : String → Option PyExpr} {effects : String → Option ColumnEffectKind}
  {g : Graph Sub} {observed : Observed}

theorem mem_links_column_visit {node_id column : String} {node : Node Sub} {q : NodeColumn} :
    q ∈ (column_visit parse effects g observed node_id node column).links.map Prod.snd ↔
      ∃ role cols, resolve_column parse effects g node column = some (role, cols) ∧
        role ≠ .SOURCE ∧ q.2 ∈ cols ∧ frame_predecessor g node = some q.1 := by
  unfold column_visit
  cases hresolve : resolve_column parse effects g node column with
  | none => simp
  | some resolved =>
      obtain ⟨role, cols⟩ := resolved
      simp only [Option.some.injEq, Prod.mk.injEq]
      split
      · rename_i hsource
        simp only [List.map_nil, List.not_mem_nil, false_iff]
        rintro ⟨_, _, ⟨rfl, rfl⟩, hrole, hmem, -⟩
        rcases hsource with hsource | hnil
        · exact hrole hsource
        · simp [hnil] at hmem
      · rename_i hsource
        rw [not_or] at hsource
        cases hpred : frame_predecessor g node with
        | none =>
            simp only [reduceCtorEq, and_false, exists_false, iff_false]
            split <;> simp
        | some pred =>
            simp only [List.map_map, List.mem_map, Function.comp_apply]
            constructor
            · rintro ⟨sc, hsc, rfl⟩
              exact ⟨role, cols, ⟨rfl, rfl⟩, hsource.1, hsc, rfl⟩
            · rintro ⟨_, _, ⟨rfl, rfl⟩, -, hmem, hq⟩
              cases hq
              exact ⟨q.2, hmem, rfl⟩

theorem key_column_visit (g : Graph Sub) (observed : Observed) (node_id : String)
    (node : Node Sub) (column : String) :
    (column_visit parse effects g observed node_id node column).entry.key = (node_id, column) := by
  unfold column_visit unresolved_entry
  split
  · split <;> rfl
  · split
    · rfl
    · split
      · split <;> rfl
      · rfl

/-- The links of the walk are the inputs of a column. -/
theorem link_visit_column {p q : NodeColumn} :
    DepthFirst.Link (visit_column parse effects g observed) p q ↔
      ComesFrom parse effects g p q := by
  simp only [DepthFirst.Link, visit_column, Checks.bind_eq_ok, Checks.require_eq_ok, ComesFrom]
  constructor
  · rintro ⟨v, ⟨node, hnode, hv⟩, hmem⟩
    cases hv
    obtain ⟨role, cols, h⟩ := mem_links_column_visit.mp hmem
    exact ⟨node, role, cols, hnode, h⟩
  · rintro ⟨node, role, cols, hnode, h⟩
    exact ⟨_, ⟨node, hnode, rfl⟩, mem_links_column_visit.mpr ⟨role, cols, h⟩⟩

theorem ComesFrom.feeds (hv : g.Valid) {p q : NodeColumn} (h : ComesFrom parse effects g p q) :
    g.Feeds q.1 p.1 := by
  obtain ⟨node, _, _, hnode, -, -, -, hpred⟩ := h
  rw [← hv.node_id hnode]
  exact feeds_of_frame_predecessor hpred

/-- An acyclic graph has a topological order. -/
theorem topological_sort_of_acyclic (hv : g.Valid) (hacyclic : Closure.Acyclic g.Feeds) :
    ∃ order, topological_sort g = .ok order := by
  obtain ⟨order, horder⟩ := Kahn.sort_of_acyclic g.nodes.nodup_keys
    (fun e he => (hv.mem_keys (show g.Feeds e.1 e.2 from he)).2) hacyclic
    (fun e he => (hv.mem_keys (show g.Feeds e.1 e.2 from he)).1)
  exact ⟨order, by rw [topological_sort, horder]⟩

/-- On an acyclic graph the walk always ends. -/
theorem visit_column_ranked (observed : Observed) (hv : g.Valid) {order : List String}
    (horder : topological_sort g = .ok order) :
    DepthFirst.Ranked (visit_column parse effects g observed) ColumnLineageNode.key
      (fun p => p.1 ∈ g.nodes.keys) (fun p => order.idxOf p.1) := by
  obtain ⟨hperm, hrespects⟩ := topological_sort_eq_ok hv horder
  refine ⟨?_, ?_⟩
  · intro p hp
    obtain ⟨node, hnode⟩ := (Dict.mem_keys_iff _).mp hp
    refine ⟨column_visit parse effects g observed p.1 node p.2, ?_, key_column_visit ..⟩
    rw [visit_column, hnode]
    rfl
  · intro p q hp hlink
    have hfeeds := (link_visit_column.mp hlink).feeds hv
    exact ⟨(hv.mem_keys hfeeds).1,
      hrespects.idxOf_lt hfeeds (hperm.mem_iff.mpr (hv.mem_keys hfeeds).2)⟩

variable (parse effects) in
/-- On an acyclic graph the trace returns what a ranked walk has found. -/
theorem trace_column_lineage_walk (observed : Observed) (hv : g.Valid)
    (hacyclic : Closure.Acyclic g.Feeds) {n : String} (hn : n ∈ g.nodes.keys) (column : String) :
    ∃ order st, DepthFirst.Ranked (visit_column parse effects g observed) ColumnLineageNode.key
        (fun p => p.1 ∈ g.nodes.keys) (fun p => order.idxOf p.1) ∧
      order.idxOf n < walk_fuel parse g ∧
      DepthFirst.walk (visit_column parse effects g observed) .recursion (walk_fuel parse g)
        (n, column) {} = .ok st ∧
      trace_column_lineage parse effects g n column observed =
        .ok (.ordered order n column st.entries st.edges) := by
  obtain ⟨order, horder⟩ := topological_sort_of_acyclic hv hacyclic
  have hmem : n ∈ order := (topological_sort_eq_ok hv horder).1.mem_iff.mpr hn
  -- the rank is the place in the order, so the graph bounds the depth
  have hfuel : order.idxOf n < walk_fuel parse g := by
    have hlt := List.idxOf_lt_length_iff.mpr hmem
    have hsize : order.length = g.nodes.size := by
      rw [(topological_sort_eq_ok hv horder).1.length_eq, Dict.keys, Dict.size, List.length_map]
    have hle : g.nodes.size * 1 ≤ g.nodes.size * (1 + (derive_refs parse g).length) :=
      Nat.mul_le_mul_left _ (by omega)
    rw [walk_fuel]
    omega
  have hranked : DepthFirst.Ranked (visit_column parse effects g observed) ColumnLineageNode.key
      (fun p => p.1 ∈ g.nodes.keys) (fun p => order.idxOf p.1) :=
    visit_column_ranked observed hv horder
  obtain ⟨st, hrun, -⟩ := DepthFirst.mem_entries_walk hranked (a := (n, column)) hn hfuel
  refine ⟨order, st, hranked, hfuel, hrun, ?_⟩
  have htrace : trace_order g = order := by rw [trace_order, horder]
  rw [trace_column_lineage, htrace]
  simp only [if_pos hmem]
  have hcontains : g.nodes.contains n = true :=
    (Dict.contains_iff _).mpr ((Dict.mem_keys_iff _).mp hn)
  exact Checks.then_eq_ok.mpr ⟨Checks.guard_eq_ok.mpr hcontains,
    Checks.bind_eq_ok.mpr ⟨st, hrun, rfl⟩⟩

theorem link_eq_comesFrom :
    DepthFirst.Link (visit_column parse effects g observed) = ComesFrom parse effects g := by
  funext p q
  exact propext link_visit_column

/-- On an acyclic graph the trace returns, and reports exactly the columns
that the inputs lead back to. -/
theorem trace_column_lineage_entries (observed : Observed) (hv : g.Valid)
    (hacyclic : Closure.Acyclic g.Feeds) {n : String} (hn : n ∈ g.nodes.keys) (column : String) :
    ∃ lineage, trace_column_lineage parse effects g n column observed = .ok lineage ∧
      ∀ q, (∃ entry ∈ lineage.nodes, entry.key = q) ↔
        Relation.ReflTransGen (ComesFrom parse effects g) (n, column) q := by
  obtain ⟨order, st, hranked, hfuel, hrun, htrace⟩ :=
    trace_column_lineage_walk parse effects observed hv hacyclic hn column
  obtain ⟨st', hrun', hentries⟩ := DepthFirst.mem_entries_walk hranked (a := (n, column)) hn hfuel
  rw [hrun, Except.ok.injEq] at hrun'
  subst hrun'
  rw [link_eq_comesFrom] at hentries
  refine ⟨_, htrace, fun q => ?_⟩
  rw [← hentries q]
  simp only [ColumnLineage.ordered, List.mem_insertionSort]

/-- The edges of a visit lead to its column from what its links lead to. -/
theorem edge_column_visit {node_id column : String} {node : Node Sub}
    {link : ColumnLineageEdge × NodeColumn}
    (h : link ∈ (column_visit parse effects g observed node_id node column).links) :
    (link.1.source_node_id, link.1.source_column) = link.2 ∧
      (link.1.target_node_id, link.1.target_column) = (node_id, column) := by
  unfold column_visit at h
  split at h
  · cases h
  · split at h
    · cases h
    · split at h
      · split at h <;> cases h
      · obtain ⟨sc, -, rfl⟩ := List.mem_map.mp h
        exact ⟨rfl, rfl⟩

/-- A report has an edge from `p` to `q`. -/
def ColumnLineage.Joins (report : ColumnLineage) (p q : NodeColumn) : Prop :=
  ∃ edge ∈ report.edges, (edge.source_node_id, edge.source_column) = p ∧
    (edge.target_node_id, edge.target_column) = q

/-- The edges of a report are those between the columns it reports. -/
theorem trace_column_lineage_joins (hv : g.Valid) (hacyclic : Closure.Acyclic g.Feeds)
    {n : String} (hn : n ∈ g.nodes.keys) {column : String} {lineage : ColumnLineage}
    (h : trace_column_lineage parse effects g n column observed = .ok lineage) (p q : NodeColumn) :
    lineage.Joins q p ↔ Relation.ReflTransGen (ComesFrom parse effects g) (n, column) p ∧
      ComesFrom parse effects g p q := by
  obtain ⟨order, st, hranked, hfuel, hrun, htrace⟩ :=
    trace_column_lineage_walk parse effects observed hv hacyclic hn column
  rw [h, Except.ok.injEq] at htrace
  subst htrace
  have hedges := DepthFirst.mem_edges_walk hranked (a := (n, column)) hn hfuel hrun
  rw [link_eq_comesFrom] at hedges
  -- an edge ends at the column that was visited when it was drawn
  have hedge : ∀ b e, DepthFirst.EdgeOf (visit_column parse effects g observed) b e →
      (e.target_node_id, e.target_column) = b ∧
        ComesFrom parse effects g b (e.source_node_id, e.source_column) := by
    rintro b e ⟨v, hv, he⟩
    have hlink : DepthFirst.Link (visit_column parse effects g observed) b
        (e.source_node_id, e.source_column) ↔
          ComesFrom parse effects g b (e.source_node_id, e.source_column) := link_visit_column
    rw [← hlink]
    obtain ⟨link, hmem, rfl⟩ := List.mem_map.mp he
    obtain ⟨node, hnode, hvisit⟩ := Checks.bind_eq_ok.mp hv
    cases hvisit
    obtain ⟨hsource, htarget⟩ := edge_column_visit hmem
    exact ⟨htarget, _, hv, hsource ▸ List.mem_map_of_mem hmem⟩
  simp only [ColumnLineage.Joins, ColumnLineage.ordered, List.mem_insertionSort]
  constructor
  · rintro ⟨e, he, rfl, rfl⟩
    obtain ⟨b, hreach, hb⟩ := (hedges e).mp he
    obtain ⟨rfl, hcomes⟩ := hedge b e hb
    exact ⟨hreach, hcomes⟩
  · rintro ⟨hreach, hcomes⟩
    have hlink : DepthFirst.Link (visit_column parse effects g observed) p q :=
      link_visit_column.mpr hcomes
    obtain ⟨v, hv, hmem⟩ := hlink
    obtain ⟨link, hlink, rfl⟩ := List.mem_map.mp hmem
    have hof : DepthFirst.EdgeOf (visit_column parse effects g observed) p link.1 :=
      ⟨v, hv, List.mem_map_of_mem hlink⟩
    obtain ⟨node, hnode, hvisit⟩ := Checks.bind_eq_ok.mp hv
    cases hvisit
    exact ⟨link.1, (hedges link.1).mpr ⟨p, hreach, hof⟩, (edge_column_visit hlink).1,
      (hedge p _ hof).1⟩

/-! ## Graphs with cycles -/

/-- The input columns of a column are that column itself or are named in a
derive expression. -/
theorem mem_cols_of_resolve {node : Node Sub} {column : String} {role : ColumnRole}
    {cols : List String} (hnode : node ∈ g.nodes.values)
    (h : resolve_column parse effects g node column = some (role, cols)) {c : String}
    (hc : c ∈ cols) : c = column ∨ c ∈ derive_refs parse g := by
  unfold resolve_column at h
  split at h
  · split at h
    · split at h
      · cases h
        exact .inl (List.mem_singleton.mp hc)
      · cases h
    · cases h
  · split at h
    · split at h
      · rename_i spec hspec
        cases h
        -- only a derived column has sources under other names
        refine .inr (List.mem_flatMap.mpr ⟨node, hnode, List.mem_flatMap.mpr ⟨spec, ?_, hc⟩⟩)
        exact List.mem_of_find?_eq_some hspec
      · split at h
        · cases h
          exact .inl (List.mem_singleton.mp hc)
        · cases h
    · split at h
      · cases h
        cases hc
      · split at h
        · split at h
          · cases h
            exact .inl (List.mem_singleton.mp hc)
          · cases h
        · split at h
          · cases h
            cases hc
          · cases h

/-- The columns of nodes that a trace of this column can come to. -/
def walk_items (parse : String → Option PyExpr) (g : Graph Sub) (column : String) :
    List NodeColumn :=
  g.nodes.keys.flatMap fun id => (column :: derive_refs parse g).map (id, ·)

theorem mem_walk_items {column : String} {p : NodeColumn} :
    p ∈ walk_items parse g column ↔
      p.1 ∈ g.nodes.keys ∧ p.2 ∈ column :: derive_refs parse g := by
  obtain ⟨id, c⟩ := p
  simp only [walk_items, List.mem_flatMap, List.mem_map, Prod.mk.injEq]
  constructor
  · rintro ⟨_, hid, _, hc, rfl, rfl⟩
    exact ⟨hid, hc⟩
  · exact fun h => ⟨id, h.1, c, h.2, rfl, rfl⟩

/-- The trace of a column of a node of the graph returns, cycles or not. -/
theorem trace_column_lineage_returns (observed : Observed) (hv : g.Valid) {n : String}
    (hn : n ∈ g.nodes.keys) (column : String) :
    ∃ lineage, trace_column_lineage parse effects g n column observed = .ok lineage := by
  -- on a cycle the visits stay among finitely many columns
  have hclosed : ∀ p ∈ walk_items parse g column,
      ∃ v, visit_column parse effects g observed p = .ok v ∧
        ∀ link ∈ v.links, link.2 ∈ walk_items parse g column := by
    intro p hp
    obtain ⟨hid, hcol⟩ := mem_walk_items.mp hp
    obtain ⟨node, hnode⟩ := (Dict.mem_keys_iff _).mp hid
    refine ⟨column_visit parse effects g observed p.1 node p.2, by rw [visit_column, hnode]; rfl, ?_⟩
    intro link hlink
    obtain ⟨role, cols, hresolve, -, hmem, hpred⟩ :=
      mem_links_column_visit.mp (List.mem_map_of_mem hlink)
    have hfeeds : g.Feeds link.2.1 p.1 := by
      rw [← hv.node_id hnode]
      exact feeds_of_frame_predecessor hpred
    refine mem_walk_items.mpr ⟨(hv.mem_keys hfeeds).1, ?_⟩
    rcases mem_cols_of_resolve ((Dict.mem_values_iff _).mpr ⟨p.1, hnode⟩) hresolve hmem with heq | href
    · rw [heq]
      exact hcol
    · exact List.mem_cons_of_mem _ href
  have hfuel : (({} : DepthFirst.State NodeColumn ColumnLineageNode ColumnLineageEdge).unvisited
      (walk_items parse g column)).length < walk_fuel parse g := by
    have hle := List.length_filter_le
      (· ∉ ({} : DepthFirst.State NodeColumn ColumnLineageNode ColumnLineageEdge).visited)
      (walk_items parse g column)
    have hlength : (walk_items parse g column).length =
        g.nodes.size * (1 + (derive_refs parse g).length) := by
      simp only [walk_items, List.length_flatMap, List.length_map, List.length_cons,
        List.map_const', List.sum_replicate_nat, Dict.keys, Dict.size, Nat.add_comm]
    rw [walk_fuel, ← hlength]
    exact Nat.lt_succ_of_le hle
  have hstart : (n, column) ∈ walk_items parse g column :=
    mem_walk_items.mpr ⟨hn, List.mem_cons_self⟩
  obtain ⟨st, hrun, -⟩ := DepthFirst.walk_ends hclosed hstart hfuel
  rw [trace_column_lineage]
  have hcontains : g.nodes.contains n = true :=
    (Dict.contains_iff _).mpr ((Dict.mem_keys_iff _).mp hn)
  exact ⟨_, Checks.then_eq_ok.mpr ⟨Checks.guard_eq_ok.mpr hcontains,
    Checks.bind_eq_ok.mpr ⟨st, hrun, rfl⟩⟩⟩

end EmergentFlow
