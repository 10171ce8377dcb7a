import EmergentFlow.Codegen.Wiring

/-!
# Codegen — Composite

The boundary of a `layout.composite` node (`codegen/composite.py`): its IN
and OUT ports stand, by position, for the IN ports of its subgraph that
nothing inside feeds and the OUT ports that nothing inside consumes.
-/

namespace EmergentFlow

variable {Sub : Type}

/-- `COMPOSITE_NODE_TYPE`. -/
def COMPOSITE_NODE_TYPE : String := "layout.composite"

/-- The boundary of a subgraph, in canonical order. -/
structure CompositeBoundary where
  wiring : WiringMap
  dangling_in : List PortRef
  exposed_out : List PortRef
  deriving DecidableEq, Repr

/-- The ports of a graph: nodes by ascending id, ports as declared. -/
def Graph.sorted_ports (g : Graph Sub) : List (PortRef × Port) :=
  g.sorted_nodes.flatMap fun node => node.ports.map fun port => (⟨node.id, port.id⟩, port)

/-- `resolve_composite_boundary`. -/
def resolve_composite_boundary (subgraph : Graph Sub) :
    Except CodegenError CompositeBoundary := do
  let wiring ← build_wiring_map subgraph
  let ports := subgraph.sorted_ports
  pure {
    wiring
    dangling_in := (ports.filter fun p =>
      p.2.direction = .IN && wiring.upstream p.1 = some []).map Prod.fst
    exposed_out := (ports.filter fun p =>
      p.2.direction = .OUT && (wiring.consumers p.1).isEmpty).map Prod.fst }

end EmergentFlow
