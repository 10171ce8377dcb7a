import Mathlib.Data.Prod.Lex
import EmergentFlow.Codegen.Traversal
import EmergentFlow.Lib.Flood
import EmergentFlow.Lib.StableSort
import EmergentFlow.Research.Lineage

/-!
# Research — Trace Lineage

The trace of a node (`trace_lineage` of `research/lineage.py`): the node and all it comes
from in topological order, and the edges between them.
-/

namespace EmergentFlow

open Relation

variable {Sub : Type}

/-- `LineageNode`. -/
structure LineageNode where
  node_id : String
  node_type : String
  label : Option String
  deriving DecidableEq, Repr

/-- `LineageEdge`. -/
structure LineageEdge where
  source_node_id : String
  source_port : String
  target_node_id : String
  target_port : String
  deriving DecidableEq, Repr

/-- `Lineage`. -/
structure Lineage where
  target_node_id : String
  nodes : List LineageNode := []
  edges : List LineageEdge := []
  deriving DecidableEq, Repr

/-! ## The trace -/

/-- The sources of the edges into a node, one for each edge. -/
def Graph.predecessors (g : Graph Sub) (node_id : String) : List String :=
  (g.edges.values.filter (·.target.node_id = node_id)).map (·.source.node_id)

def Graph.backward (g : Graph Sub) : Flood.Neighbours String where
  succ := g.predecessors
  all := (g.edges.values.map (·.source.node_id)).toFinset
  covers _ b hb := by
    obtain ⟨e, he, rfl⟩ := List.mem_map.mp hb
    exact List.mem_toFinset.mpr (List.mem_map.mpr ⟨e, List.mem_of_mem_filter he, rfl⟩)

/-- The node and its ancestors. -/
def Graph.visited (g : Graph Sub) (node_id : String) : Finset String :=
  Flood.flood g.backward (Flood.pushAll ⟨[], ∅⟩ [node_id])

def Graph.lineage_order (g : Graph Sub) (node_id : String) : List String :=
  match topological_sort g with
  | .ok order => order.filter (· ∈ g.visited node_id)
  | .error _ =>
      let order := g.nodes.keys.filter (· ∈ g.visited node_id)
      if node_id ∈ order then order else order ++ [node_id]

/-- The key of an edge in the report: the places of its ends, then its id. -/
def edge_position (order : List String) (e : String × Edge) : Nat ×ₗ Nat ×ₗ String :=
  toLex (order.idxOf e.2.source.node_id, toLex (order.idxOf e.2.target.node_id, e.1))

def lineage_edge (e : Edge) : LineageEdge where
  source_node_id := e.source.node_id
  source_port := e.source.port_id
  target_node_id := e.target.node_id
  target_port := e.target.port_id

def Graph.lineage_node (g : Graph Sub) (node_id : String) : Option LineageNode :=
  (g.nodes.get? node_id).map fun node => ⟨node_id, node.type, node.label⟩

/-- The edges between visited nodes. -/
def Graph.in_subgraph (g : Graph Sub) (node_id : String) : List (String × Edge) :=
  g.edges.entries.filter fun e =>
    e.2.source.node_id ∈ g.visited node_id && e.2.target.node_id ∈ g.visited node_id

def trace_lineage (g : Graph Sub) (node_id : String) : Except LineageError Lineage :=
  if node_id ∉ g.nodes.keys then .error (.unknown_node node_id (sorted_set g.nodes.keys))
  else
    let order := g.lineage_order node_id
    .ok {
      target_node_id := node_id
      nodes := order.filterMap g.lineage_node
      edges := ((g.in_subgraph node_id).mergeSort fun a b =>
        edge_position order a ≤ edge_position order b).map fun e => lineage_edge e.2 }

/-! ## Ancestors -/

theorem Graph.mem_predecessors {g : Graph Sub} {a b : String} :
    a ∈ g.predecessors b ↔ g.Feeds a b := by
  rw [Graph.predecessors, List.mem_map, Graph.feeds_iff]
  simp only [List.mem_filter, Dict.mem_values_iff, decide_eq_true_eq]
  constructor
  · rintro ⟨e, ⟨⟨id, he⟩, htarget⟩, hsource⟩
    exact ⟨id, e, he, hsource, htarget⟩
  · rintro ⟨id, e, he, hsource, htarget⟩
    exact ⟨e, ⟨⟨id, he⟩, htarget⟩, hsource⟩

theorem Graph.mem_visited {g : Graph Sub} {a node_id : String} :
    a ∈ g.visited node_id ↔ ReflTransGen g.Feeds a node_id := by
  have hstep : g.backward.Step = Function.swap g.Feeds := by
    funext a b
    exact propext Graph.mem_predecessors
  rw [Graph.visited, Flood.mem_flood_iff, hstep]
  simp only [List.mem_singleton, exists_eq_left, reflTransGen_swap]

/-- A node of the graph has only nodes of the graph for ancestors. -/
theorem Graph.Valid.mem_keys_of_path {g : Graph Sub} (hv : g.Valid) {a b : String}
    (hpath : ReflTransGen g.Feeds a b) (hb : b ∈ g.nodes.keys) : a ∈ g.nodes.keys := by
  rcases hpath.cases_head with rfl | ⟨c, hfeeds, -⟩
  · exact hb
  · exact (hv.mem_keys hfeeds).1

/-! ## Order -/

section Ordered

variable {g : Graph Sub} {order : List String} {node_id : String}

theorem lineage_order_eq (horder : topological_sort g = .ok order) :
    g.lineage_order node_id = order.filter (· ∈ g.visited node_id) := by
  rw [Graph.lineage_order, horder]

theorem mem_lineage_order (hv : g.Valid) (horder : topological_sort g = .ok order)
    (hnode : node_id ∈ g.nodes.keys) {a : String} :
    a ∈ g.lineage_order node_id ↔ ReflTransGen g.Feeds a node_id := by
  obtain ⟨hperm, -⟩ := topological_sort_eq_ok hv horder
  rw [lineage_order_eq horder, List.mem_filter, decide_eq_true_eq, Graph.mem_visited]
  exact and_iff_right_of_imp fun hpath =>
    hperm.mem_iff.mpr (hv.mem_keys_of_path hpath hnode)

/-- No ancestor comes behind the node. -/
theorem lineage_order_last (hv : g.Valid) (horder : topological_sort g = .ok order)
    (hnode : node_id ∈ g.nodes.keys) : (g.lineage_order node_id).getLast? = some node_id := by
  obtain ⟨hperm, hrespects⟩ := topological_sort_eq_ok hv horder
  have hnodup : order.Nodup := hperm.nodup_iff.mpr g.nodes.nodup_keys
  obtain ⟨pre, post, hsplit⟩ := List.append_of_mem (hperm.mem_iff.mpr hnode)
  have hfront : Kahn.Respects g.links (pre ++ [node_id]) := by
    intro pre' n post' heq
    refine hrespects pre' n (post' ++ post) ?_
    rw [hsplit, List.append_cons, heq, List.append_assoc, List.cons_append]
  have hnone : post.filter (· ∈ g.visited node_id) = [] := by
    rw [List.filter_eq_nil_iff]
    intro a ha hvisited
    have hpath := Graph.mem_visited.mp (of_decide_eq_true hvisited)
    have hmem : a ∈ pre ++ [node_id] := by
      rcases reflTransGen_iff_eq_or_transGen.mp hpath with heq | hpath
      · simp [heq]
      · exact (hfront.path hpath (by simp)).1
    rw [hsplit, List.append_cons] at hnodup
    exact (List.nodup_append.mp hnodup).2.2 a hmem a ha rfl
  rw [lineage_order_eq horder, hsplit, List.filter_append, List.filter_cons_of_pos, hnone]
  · exact List.getLast?_concat
  · exact decide_eq_true (Graph.mem_visited.mpr .refl)

/-- Every node of the order is described. -/
theorem map_lineage_node {l : List String} (hl : ∀ a ∈ l, a ∈ g.nodes.keys) :
    (l.filterMap g.lineage_node).map (·.node_id) = l := by
  induction l with
  | nil => rfl
  | cons a l ih =>
      obtain ⟨node, hnode⟩ := (Dict.mem_keys_iff _).mp (hl a (List.mem_cons_self ..))
      have hsome : g.lineage_node a = some ⟨a, node.type, node.label⟩ := by
        rw [Graph.lineage_node, hnode, Option.map_some]
      rw [List.filterMap_cons_some hsome, List.map_cons,
        ih fun b hb => hl b (List.mem_cons_of_mem _ hb)]

end Ordered

/-! ## Insertion order -/

section Same

variable {g g' : Graph Sub} {node_id : String}

theorem Graph.Same.visited (s : g'.Same g) : g'.visited node_id = g.visited node_id := by
  ext a
  rw [Graph.mem_visited, Graph.mem_visited, s.feeds]

theorem Graph.Same.entries (s : g'.Same g) : g'.edges.entries.Perm g.edges.entries := by
  rw [List.perm_ext_iff_of_nodup (List.Nodup.of_map _ g'.edges.nodup)
    (List.Nodup.of_map _ g.edges.nodup)]
  rintro ⟨id, e⟩
  rw [Dict.mem_entries_iff, Dict.mem_entries_iff, s.edges]

theorem Graph.Same.in_subgraph (s : g'.Same g) :
    (g'.in_subgraph node_id).Perm (g.in_subgraph node_id) := by
  rw [Graph.in_subgraph, Graph.in_subgraph, s.visited]
  exact s.entries.filter _

/-- The key of an edge tells it from the others. -/
theorem edge_position_inj (order : List String) {a b : String × Edge} (ha : a ∈ g.edges.entries)
    (hb : b ∈ g.edges.entries) (heq : edge_position order a = edge_position order b) : a = b := by
  have hid : a.1 = b.1 := by
    have := congrArg (fun k => (ofLex (ofLex k).2).2) heq
    exact this
  have hget := (Dict.mem_entries_iff _).mp ha
  have hget' := (Dict.mem_entries_iff _).mp hb
  rw [hid, hget'] at hget
  exact Prod.ext hid (Option.some_inj.mp hget).symm

theorem Graph.Same.lineage_node (s : g'.Same g) : g'.lineage_node = g.lineage_node := by
  funext id
  rw [Graph.lineage_node, Graph.lineage_node, s.nodes]

theorem sorted_set_perm {l l' : List String} (h : l'.Perm l) : sorted_set l' = sorted_set l := by
  have hperm := (List.perm_insertionSort (· ≤ ·) l'.dedup).trans
    (h.dedup.trans (List.perm_insertionSort (· ≤ ·) l.dedup).symm)
  exact hperm.eq_of_sortedLE List.sortedLE_insertionSort List.sortedLE_insertionSort

/-- The trace of an acyclic graph does not depend on how it was put together. -/
theorem trace_lineage_same (hv : g.Valid) (hacyclic : Closure.Acyclic g.Feeds) (s : g'.Same g)
    (node_id : String) : trace_lineage g' node_id = trace_lineage g node_id := by
  obtain ⟨order, horder⟩ := topological_sort_of_acyclic hv hacyclic
  have horder' : topological_sort g' = .ok order := (topological_sort_same hv s).trans horder
  have hkeys : node_id ∈ g'.nodes.keys ↔ node_id ∈ g.nodes.keys := s.keys.mem_iff
  have hlineage : g'.lineage_order node_id = g.lineage_order node_id := by
    rw [lineage_order_eq horder, lineage_order_eq horder', s.visited]
  have hedges : (g'.in_subgraph node_id).mergeSort (fun a b =>
        edge_position (g.lineage_order node_id) a ≤ edge_position (g.lineage_order node_id) b) =
      (g.in_subgraph node_id).mergeSort fun a b =>
        edge_position (g.lineage_order node_id) a ≤ edge_position (g.lineage_order node_id) b :=
    StableSort.mergeSort_key_eq s.in_subgraph fun a ha b hb =>
      edge_position_inj _ (List.mem_of_mem_filter ha) (List.mem_of_mem_filter hb)
  simp only [trace_lineage, hkeys, hlineage, hedges, s.lineage_node, sorted_set_perm s.keys]

end Same

/-- What the trace of a node says: the node and its ancestors, once each and in topological
order with the node last, and the edges of the graph between these. -/
structure LineageExact (g : Graph Sub) (node_id : String) (report : Lineage) : Prop where
  target : report.target_node_id = node_id
  ancestors : ∀ id, id ∈ report.nodes.map (·.node_id) ↔ ReflTransGen g.Feeds id node_id
  ordered : ∃ order, g.Topological order ∧ (report.nodes.map (·.node_id)).Sublist order
  last : (report.nodes.map (·.node_id)).getLast? = some node_id
  described : ∀ entry ∈ report.nodes, ∃ node, g.nodes.get? entry.node_id = some node ∧
    entry.node_type = node.type ∧ entry.label = node.label
  edges : report.edges.Perm ((g.edges.values.filter fun e =>
    e.source.node_id ∈ report.nodes.map (·.node_id) ∧
      e.target.node_id ∈ report.nodes.map (·.node_id)).map lineage_edge)

theorem lineage_exact {g : Graph Sub} (hv : g.Valid) {order : List String}
    (horder : topological_sort g = .ok order) {node_id : String} (hnode : node_id ∈ g.nodes.keys)
    {report : Lineage} (h : trace_lineage g node_id = .ok report) :
    LineageExact g node_id report := by
  rw [trace_lineage, if_neg (not_not.mpr hnode), Except.ok.injEq] at h
  subst h
  have hmem := fun a => mem_lineage_order hv horder hnode (a := a)
  have hids : (((g.lineage_order node_id).filterMap g.lineage_node).map (·.node_id)) =
      g.lineage_order node_id :=
    map_lineage_node fun a ha => hv.mem_keys_of_path ((hmem a).mp ha) hnode
  refine ⟨rfl, ?_, ?_, ?_, ?_, ?_⟩
  · intro id
    rw [hids]
    exact hmem id
  · have htop := ((topological_sort_laws hv).2.1 order horder).1
    rw [hids, lineage_order_eq horder]
    exact ⟨order, htop, List.filter_sublist⟩
  · rw [hids]
    exact lineage_order_last hv horder hnode
  · intro entry hentry
    obtain ⟨id, -, hsome⟩ := List.mem_filterMap.mp hentry
    obtain ⟨node, hget, rfl⟩ := Option.map_eq_some_iff.mp hsome
    exact ⟨node, hget, rfl, rfl⟩
  · rw [hids]
    refine ((List.mergeSort_perm _ _).map _).trans (List.Perm.of_eq ?_)
    rw [Dict.values, List.filter_map, List.map_map, Graph.in_subgraph]
    congr 1
    refine List.filter_congr fun e _ => ?_
    simp only [Function.comp, hmem, ← Graph.mem_visited]
    exact (Bool.decide_and _ _).symm

/-- On an acyclic graph every node has its trace, in every insertion order the same. -/
theorem trace_lineage_exact {g : Graph Sub} (hv : g.Valid) (hacyclic : Closure.Acyclic g.Feeds)
    {node_id : String} (hnode : node_id ∈ g.nodes.keys) :
    ∃ report, trace_lineage g node_id = .ok report ∧ LineageExact g node_id report ∧
      ∀ g' : Graph Sub, g'.Same g → trace_lineage g' node_id = .ok report := by
  obtain ⟨order, horder⟩ := topological_sort_of_acyclic hv hacyclic
  obtain ⟨report, hreport⟩ : ∃ report, trace_lineage g node_id = .ok report :=
    ⟨_, if_neg (not_not.mpr hnode)⟩
  refine ⟨report, hreport, lineage_exact hv horder hnode hreport, fun g' s => ?_⟩
  rw [trace_lineage_same hv hacyclic s, hreport]

theorem fan_out_lineage : ∃ report, trace_lineage fan_out "a" = .ok report ∧
    LineageExact fan_out "a" report ∧
      ∀ g' : Graph Empty, g'.Same fan_out → trace_lineage g' "a" = .ok report :=
  have hv : fan_out.Valid := Graph.validate_structure_eq_ok.mp rfl
  trace_lineage_exact hv ((topological_sort_ok_iff hv).mp ⟨["c", "a", "b"], rfl⟩) (by decide)

end EmergentFlow
