import EmergentFlow.Codegen.Composite
import EmergentFlow.Validity.Traversal

/-!
# Validity — Flatten

The graph a nested graph stands for: every `layout.composite` node is
dissolved along its boundary, and its IN and OUT ports stand for the
dangling IN ports and the exposed OUT ports of its subgraph, by position.
A node of the flattened graph is named by its address, the ids of the
composites around it and its own.

This is the specification that the rules are compared with; nothing in the
source flattens a graph.
-/

namespace EmergentFlow

variable {Sub : Type}

/-- The ids of the composites around a node, outermost first, and its own. -/
abbrev Address := List String

/-- The node is a composite with this subgraph. -/
def Node.composite (node : Node Sub) : Option Sub :=
  if node.type = COMPOSITE_NODE_TYPE then node.subgraph else none

/-- The boundary of a subgraph; none where its wiring is rejected. -/
def Graph.boundary_in (sub : Graph Sub) : List PortRef :=
  match resolve_composite_boundary sub with
  | .ok boundary => boundary.dangling_in
  | .error _ => []

@[inherit_doc Graph.boundary_in]
def Graph.boundary_out (sub : Graph Sub) : List PortRef :=
  match resolve_composite_boundary sub with
  | .ok boundary => boundary.exposed_out
  | .error _ => []

/-- The port of the boundary that stands at the position of `port_id`. -/
def boundary_port (ports : List Port) (boundary : List PortRef) (port_id : String) :
    Option PortRef :=
  (ports.findIdx? (·.id = port_id)).bind (boundary[·]?)

/-! ## Endpoints -/

section Level

variable (inside : Sub → PortRef → Option Address) (boundary : Sub → List PortRef)
  (ports : Node Sub → List Port)

/-- The node an endpoint of an edge denotes: a port of a composite denotes
what the port of the boundary denotes inside. -/
def Graph.resolve_end_with (g : Graph Sub) (r : PortRef) : Option Address :=
  (g.nodes.get? r.node_id).bind fun node =>
    if node.type = COMPOSITE_NODE_TYPE then
      node.subgraph.bind fun sub =>
        (boundary_port (ports node) (boundary sub) r.port_id).bind fun port =>
          (inside sub port).map (r.node_id :: ·)
    else some [r.node_id]

end Level

/-- The node that the source of an edge denotes. -/
def resolve_source : (n : Nat) → Graph (Nested n) → PortRef → Option Address
  | 0 => Graph.resolve_end_with (fun sub _ => sub.elim) Empty.elim Node.out_ports
  | n + 1 => Graph.resolve_end_with (resolve_source n) Graph.boundary_out Node.out_ports

/-- The node that the target of an edge denotes. -/
def resolve_target : (n : Nat) → Graph (Nested n) → PortRef → Option Address
  | 0 => Graph.resolve_end_with (fun sub _ => sub.elim) Empty.elim Node.in_ports
  | n + 1 => Graph.resolve_end_with (resolve_target n) Graph.boundary_in Node.in_ports

/-! ## Nodes and edges -/

/-- What is inside the composites of a graph, addressed from outside. -/
def Graph.inside_composites {α β : Type} (g : Graph Sub) (items : Sub → List α)
    (address : String → α → β) : List β :=
  g.nodes.entries.flatMap fun e =>
    match e.2.composite with
    | none => []
    | some sub => (items sub).map (address e.1)

/-- The nodes of the flattened graph, with their types. -/
def flat_nodes : (n : Nat) → Graph (Nested n) → List (Address × String)
  | n, g =>
    (g.nodes.entries.filter (·.2.type ≠ COMPOSITE_NODE_TYPE)).map (fun e => ([e.1], e.2.type)) ++
      match n with
      | 0 => []
      | n + 1 => g.inside_composites (flat_nodes n) fun id p => (id :: p.1, p.2)

/-- The edges of the flattened graph, between nodes. -/
def flat_edges : (n : Nat) → Graph (Nested n) → List (Address × Address)
  | n, g =>
    g.edges.values.filterMap (fun e =>
      (resolve_source n g e.source).bind fun a => (resolve_target n g e.target).map (a, ·)) ++
      match n with
      | 0 => []
      | n + 1 => g.inside_composites (flat_edges n) fun id p => (id :: p.1, id :: p.2)

/-- An edge of the flattened graph. -/
def FlatStep (n : Nat) (g : Graph (Nested n)) (a b : Address) : Prop := (a, b) ∈ flat_edges n g

end EmergentFlow
