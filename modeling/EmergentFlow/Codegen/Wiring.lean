import Mathlib.Data.String.Basic
import EmergentFlow.Lib.Kahn
import EmergentFlow.Nodes.Contract

/-!
# Codegen — Wiring

What every walk over a functional graph starts from: which OUT ports feed
each IN port (`codegen/wiring.py`), and the order in which the nodes are
visited (`codegen/traversal.py`).
-/

namespace EmergentFlow

variable {Sub : Type}

/-- The errors of the code-generation layer (`codegen/errors.py`) and of
the resolution of graph params, with the places their messages name. -/
inductive CodegenError where
  | validation
  | graph_paradigm
  | node_paradigm (node_id : String)
  | cycle (remaining : List String)
  | cardinality (node_id port_name : String) (edges : Nat)
  | unbound_input (node_id port_name : String)
  | no_subgraph (node_id : String)
  | in_port_count (node_id : String) (declared dangling : Nat)
  | out_port_count (node_id : String) (declared exposed : Nat)
  | unknown_overrides (names : List String)
  | undefined_ref (node_id param_name ref : String)
  | raised (exception : String)
  deriving DecidableEq, Repr

/-- `[p for p in node.ports if p.direction == Direction.IN]`. -/
def Node.in_ports (node : Node Sub) : List Port := node.ports.filter (·.direction = .IN)

/-- `[p for p in node.ports if p.direction == Direction.OUT]`. -/
def Node.out_ports (node : Node Sub) : List Port := node.ports.filter (·.direction = .OUT)

/-- `next(p.name for p in node.ports if p.id == port_id)`. -/
def Node.port_name (node : Node Sub) (port_id : String) : Option String :=
  (node.ports.find? (·.id = port_id)).map (·.name)

/-! ## The wiring map -/

/-- The key `(ref.node_id, ref.port_id)` of the source lists' order. -/
def PortRef.le (a b : PortRef) : Bool :=
  a.node_id < b.node_id || (a.node_id = b.node_id && a.port_id ≤ b.port_id)

/-- The sources of the edges into an IN port, one for each edge. -/
def Graph.incoming (g : Graph Sub) (target : PortRef) : List PortRef :=
  (g.edges.values.filter (·.target = target)).map (·.source)

/-- The sources of an IN port in the order the wiring map lists them. -/
def Graph.sources (g : Graph Sub) (target : PortRef) : List PortRef :=
  (g.incoming target).insertionSort (PortRef.le · · = true)

/-- The wiring of one IN port. -/
structure InputBinding where
  target : PortRef
  sources : List PortRef
  deriving DecidableEq, Repr

/-- One binding for each IN port of the graph. -/
structure WiringMap where
  bindings : List InputBinding
  deriving DecidableEq, Repr

/-- `WiringMap.upstream`: the last binding of the port counts, as in the
index built from the bindings; `none` is the `KeyError` of a port that is
not a known IN port. -/
def WiringMap.upstream (w : WiringMap) (target : PortRef) : Option (List PortRef) :=
  (w.bindings.reverse.find? (·.target = target)).map (·.sources)

/-- `WiringMap.consumers`: the IN ports an OUT port feeds, one for each edge. -/
def WiringMap.consumers (w : WiringMap) (source : PortRef) : List PortRef :=
  w.bindings.flatMap fun b => (b.sources.filter (· = source)).map fun _ => b.target

/-- The nodes by ascending id. -/
def Graph.sorted_nodes (g : Graph Sub) : List (Node Sub) :=
  g.nodes.values.insertionSort (·.id ≤ ·.id)

/-- The binding of one IN port: one edge at most unless it takes many. -/
def Graph.bind_port (g : Graph Sub) (node : Node Sub) (port : Port) :
    Except CodegenError InputBinding :=
  let target := ⟨node.id, port.id⟩
  let sources := g.incoming target
  if port.cardinality = .ONE ∧ 1 < sources.length then
    .error (.cardinality node.id port.name sources.length)
  else
    .ok { target, sources := g.sources target }

/-- `build_wiring_map`. -/
def build_wiring_map (g : Graph Sub) : Except CodegenError WiringMap := do
  let ports := g.sorted_nodes.flatMap fun node => node.in_ports.map (node, ·)
  let bindings ← ports.mapM fun p => g.bind_port p.1 p.2
  pure { bindings }

theorem Node.mem_in_ports {node : Node Sub} {p : Port} :
    p ∈ node.in_ports ↔ p ∈ node.ports ∧ p.direction = .IN := by
  simp [Node.in_ports]

theorem Node.mem_out_ports {node : Node Sub} {p : Port} :
    p ∈ node.out_ports ↔ p ∈ node.ports ∧ p.direction = .OUT := by
  simp [Node.out_ports]

theorem Graph.mem_sorted_nodes {g : Graph Sub} {node : Node Sub} :
    node ∈ g.sorted_nodes ↔ ∃ id, g.nodes.get? id = some node := by
  rw [Graph.sorted_nodes, List.mem_insertionSort, Dict.mem_values_iff]

theorem Graph.length_sources (g : Graph Sub) (target : PortRef) :
    (g.sources target).length = (g.incoming target).length := List.length_insertionSort _ _

theorem Graph.mem_sources {g : Graph Sub} {target r : PortRef} :
    r ∈ g.sources target ↔ ∃ id e, g.edges.get? id = some e ∧ e.target = target ∧ e.source = r := by
  simp only [Graph.sources, List.mem_insertionSort, Graph.incoming, List.mem_map, List.mem_filter,
    Dict.mem_values_iff, decide_eq_true_eq]
  constructor
  · rintro ⟨e, ⟨⟨id, he⟩, htarget⟩, hsource⟩
    exact ⟨id, e, he, htarget, hsource⟩
  · rintro ⟨id, e, he, htarget, hsource⟩
    exact ⟨e, ⟨⟨id, he⟩, htarget⟩, hsource⟩

theorem Graph.bind_port_eq_ok {g : Graph Sub} {node : Node Sub} {port : Port} {b : InputBinding} :
    g.bind_port node port = .ok b ↔
      (port.cardinality = .ONE → (g.sources ⟨node.id, port.id⟩).length ≤ 1) ∧
        b = ⟨⟨node.id, port.id⟩, g.sources ⟨node.id, port.id⟩⟩ := by
  simp only [Graph.bind_port]
  split
  · rename_i h
    simp only [reduceCtorEq, false_iff, not_and, Graph.length_sources]
    intro hone
    have := hone h.1
    omega
  · rename_i h
    simp only [Except.ok.injEq, Graph.length_sources, not_and, Nat.not_lt] at h ⊢
    exact ⟨fun hb => ⟨h, hb.symm⟩, fun hb => hb.2.symm⟩

/-- A wiring map that could be built lists the sources of every IN port. -/
theorem build_wiring_map_eq_ok {g : Graph Sub} {w : WiringMap} (h : build_wiring_map g = .ok w)
    {id : String} {node : Node Sub} (hnode : g.nodes.get? id = some node) {port : Port}
    (hport : port ∈ node.in_ports) :
    w.upstream ⟨node.id, port.id⟩ = some (g.sources ⟨node.id, port.id⟩) ∧
      (port.cardinality = .ONE → (g.sources ⟨node.id, port.id⟩).length ≤ 1) := by
  obtain ⟨bindings, hbindings, hw⟩ := Checks.bind_eq_ok.mp h
  obtain rfl : ⟨bindings⟩ = w := by simpa [pure, Except.pure] using hw
  have hmem : (node, port) ∈ g.sorted_nodes.flatMap fun node => node.in_ports.map (node, ·) :=
    List.mem_flatMap.mpr ⟨node, Graph.mem_sorted_nodes.mpr ⟨id, hnode⟩,
      List.mem_map.mpr ⟨port, hport, rfl⟩⟩
  obtain ⟨b, hb, hok⟩ := Checks.mem_left_of_mapM hbindings hmem
  obtain ⟨hone, rfl⟩ := Graph.bind_port_eq_ok.mp hok
  refine ⟨?_, hone⟩
  have hlast : ∀ b ∈ bindings, b.sources = g.sources b.target := by
    intro b hb
    obtain ⟨p, -, hp⟩ := Checks.mem_right_of_mapM hbindings hb
    obtain ⟨-, rfl⟩ := Graph.bind_port_eq_ok.mp hp
    rfl
  cases hfind : bindings.reverse.find? (·.target = ⟨node.id, port.id⟩) with
  | none =>
      have := List.find?_eq_none.mp hfind _ (List.mem_reverse.mpr hb)
      simp at this
  | some b' =>
      have htarget := List.find?_some hfind
      rw [decide_eq_true_eq] at htarget
      have hb' := hlast b' (List.mem_reverse.mp (List.mem_of_find?_eq_some hfind))
      rw [htarget] at hb'
      simp only [WiringMap.upstream, hfind, Option.map_some, hb']

/-! ## The visiting order -/

/-- The pairs of node ids that the edges join, one for each edge. -/
def Graph.links (g : Graph Sub) : List (String × String) :=
  g.edges.values.map fun e => (e.source.node_id, e.target.node_id)

/-- `topological_sort`: ties are broken by ascending id. -/
def topological_sort (g : Graph Sub) : Except CodegenError (List String) :=
  match Kahn.sort (fun a b => a ≤ b) g.nodes.keys g.links with
  | .ok order => .ok order
  | .error remaining => .error (.cycle (remaining.insertionSort (· ≤ ·)))

/-- Some edge runs from node `a` to node `b`. -/
def Graph.Feeds (g : Graph Sub) (a b : String) : Prop := (a, b) ∈ g.links

theorem Graph.feeds_iff {g : Graph Sub} {a b : String} : g.Feeds a b ↔
    ∃ id e, g.edges.get? id = some e ∧ e.source.node_id = a ∧ e.target.node_id = b := by
  simp only [Graph.Feeds, Graph.links, List.mem_map, Dict.mem_values_iff, Prod.mk.injEq]
  constructor
  · rintro ⟨e, ⟨id, he⟩, h⟩
    exact ⟨id, e, he, h⟩
  · rintro ⟨id, e, he, h⟩
    exact ⟨e, ⟨id, he⟩, h⟩

/-- A source of one of its IN ports feeds the node. -/
theorem Graph.feeds_of_mem_sources {g : Graph Sub} {target r : PortRef}
    (h : r ∈ g.sources target) : g.Feeds r.node_id target.node_id := by
  obtain ⟨id, e, he, rfl, rfl⟩ := Graph.mem_sources.mp h
  exact Graph.feeds_iff.mpr ⟨id, e, he, rfl, rfl⟩

theorem Graph.Valid.mem_keys {g : Graph Sub} (hv : g.Valid) {a b : String} (h : g.Feeds a b) :
    a ∈ g.nodes.keys ∧ b ∈ g.nodes.keys := by
  obtain ⟨id, e, he, rfl, rfl⟩ := Graph.feeds_iff.mp h
  have hsource := Graph.contains_of_port_direction (hv.source_out he)
  have htarget := Graph.contains_of_port_direction (hv.target_in he)
  rw [Dict.contains_iff] at hsource htarget
  exact ⟨(Dict.mem_keys_iff _).mpr hsource, (Dict.mem_keys_iff _).mpr htarget⟩

/-- The visiting order lists every node once, producers first. -/
theorem topological_sort_eq_ok {g : Graph Sub} (hv : g.Valid) {order : List String}
    (h : topological_sort g = .ok order) :
    order.Perm g.nodes.keys ∧ Kahn.Respects g.links order := by
  unfold topological_sort at h
  cases hsort : Kahn.sort (fun a b => a ≤ b) g.nodes.keys g.links with
  | error remaining => simp [hsort] at h
  | ok order' =>
      simp only [hsort, Except.ok.injEq] at h
      subst h
      exact Kahn.sort_eq_ok g.nodes.nodup_keys (fun e he => (hv.mem_keys he).2) hsort

end EmergentFlow
