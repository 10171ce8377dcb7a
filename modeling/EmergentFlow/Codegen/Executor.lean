import EmergentFlow.Codegen.Composite
import EmergentFlow.Codegen.Params

/-!
# Codegen — Executor

The reference interpreter of functional graphs (`codegen/executor.py`). It
visits the nodes in topological order, binds each IN port from the results
of the nodes before, and calls the node; a `layout.composite` node runs
its subgraph instead.

What a node type does when it is called is not part of this model: it is
a `Behaviour`, and every result holds for an arbitrary one.
-/

namespace EmergentFlow

variable {Sub V C ε : Type}

/-! ## Clients -/

/-- The injected clients, one seam for each kind (`clients.py`). -/
structure Clients (C : Type) where
  llm : Option C := none
  warehouse : Option C := none
  http : Option C := none

/-- `Clients.for_kind`. -/
def Clients.for_kind (clients : Clients C) : ClientKind → Option C
  | .LLM => clients.llm
  | .WAREHOUSE => clients.warehouse
  | .HTTP => clients.http

/-! ## Calling a node -/

/-- A lookup of the walk that found nothing, or too much. -/
inductive LookupFailure where
  | node (node_id : String)
  | in_port (node_id port_id : String)
  | port_id (node_id port_id : String)
  | result (node_id : String)
  | out_port (node_id port_name : String)
  | in_value (node_id port_name : String)
  | source_count (node_id port_name : String) (sources : Nat)
  deriving DecidableEq, Repr

/-- Why a node did not produce its results: an exception of its own
`execute`, one of the machinery around that call, or a failed lookup. -/
inductive Failure (ε : Type) where
  | lookup (failure : LookupFailure)
  | raised (error : ε)
  | unregistered (type : String)
  | composite_execute
  | many_clients (type : String)
  | codegen (error : CodegenError)

/-- What the nodes of a graph do: the `execute` of the definition of each
type, on a node, its inputs by port name and the client it asked for. -/
abbrev Behaviour (Sub V C ε : Type) :=
  Node Sub → Dict String V → Option C → Except ε (Dict String V)

/-- The registered node types, the value `None`, and the list a port that
takes many is given. -/
structure Runtime (V : Type) where
  registry : NodeRegistry
  none_value : V
  list_value : List V → V

/-- `definition.execute`. The container's own raises on purpose. -/
def definition_execute (call : Behaviour Sub V C ε) (node : Node Sub) (inputs : Dict String V)
    (client : Option C) : Except (Failure ε) (Dict String V) :=
  if node.type = COMPOSITE_NODE_TYPE then .error .composite_execute
  else (call node inputs client).mapError .raised

/-- Call a node with the one client its definition asks for. -/
def dispatch (call : Behaviour Sub V C ε) (clients : Clients C) (definition : NodeDefinition)
    (node : Node Sub) (inputs : Dict String V) : Except (Failure ε) (Dict String V) :=
  match definition.required_client_kinds with
  | [] => definition_execute call node inputs none
  | [kind] => definition_execute call node inputs (clients.for_kind kind)
  | _ => .error (.many_clients node.type)

/-! ## Guards -/

/-- The paradigm guard on a graph and its nodes. -/
def Graph.check_paradigms (g : Graph Sub) : Except CodegenError Unit := do
  Checks.guard (g.paradigm = .FUNCTIONAL) .graph_paradigm
  g.nodes.values.forM fun node =>
    Checks.guard (node.paradigm = .FUNCTIONAL) (.node_paradigm node.id)

/-- The dangling-input guard on one port: a required IN port that is not
`seeded` has a source. -/
def check_bound (reg : NodeRegistry) (w : WiringMap) (seeded : String → String → Bool)
    (node : Node Sub) (port : Port) : Except CodegenError Unit :=
  Checks.guard (port.name ∉ required_in_port_names reg node.type || seeded node.id port.name
    || w.upstream ⟨node.id, port.id⟩ ≠ some []) (.unbound_input node.id port.name)

/-- The dangling-input guard on the nodes about to be visited. -/
def Graph.check_bound_inputs (reg : NodeRegistry) (g : Graph Sub) (w : WiringMap)
    (seeded : String → String → Bool) (order : List String) : Except CodegenError Unit :=
  order.forM fun id =>
    match g.nodes.get? id with
    | none => .ok ()
    | some node => node.in_ports.forM (check_bound reg w seeded node)

/-! ## Binding inputs -/

/-- The results of the nodes visited so far, by node id and port name. -/
abbrev Results (V : Type) := Dict String (Dict String V)

/-- The name of the OUT port a reference denotes. -/
def Graph.source_port_name (g : Graph Sub) (src : PortRef) : Except LookupFailure String := do
  let node ← Checks.require (g.nodes.get? src.node_id) (.node src.node_id)
  Checks.require (node.port_name src.port_id) (.port_id src.node_id src.port_id)

/-- `results[node_id][port_name]`. -/
def Results.value (results : Results V) (node_id port_name : String) : Except LookupFailure V := do
  let outputs ← Checks.require (results.get? node_id) (.result node_id)
  Checks.require (outputs.get? port_name) (.out_port node_id port_name)

/-- The value of one source of an IN port. -/
def Graph.source_value (g : Graph Sub) (results : Results V) (src : PortRef) :
    Except LookupFailure V := do
  let port_name ← g.source_port_name src
  results.value src.node_id port_name

/-- The inputs of a node with one more IN port bound. A `seeded` port takes
its seed: one that takes many before looking at its sources, one that
takes one only when it has none. -/
def bind_input (rt : Runtime V) (g : Graph Sub) (w : WiringMap) (seeds : Dict (String × String) V)
    (results : Results V) (node : Node Sub) (inputs : Dict String V) (port : Port) :
    Except LookupFailure (Dict String V) := do
  let sources ← Checks.require (w.upstream ⟨node.id, port.id⟩) (.in_port node.id port.id)
  let seed := seeds.get? (node.id, port.name)
  match port.cardinality, seed, sources with
  -- here it is the seed that wins
  | .MANY, some value, _ => pure (inputs.set port.name value)
  | .MANY, none, sources => do
      let values ← sources.mapM (g.source_value results)
      pure (inputs.set port.name (rt.list_value values))
  -- with no edge a ONE port takes its seed, or None
  | .ONE, seed, [] => pure (inputs.set port.name (seed.getD rt.none_value))
  -- an edge wins over a seed
  | .ONE, _, [src] => do
      let value ← g.source_value results src
      pure (inputs.set port.name value)
  | .ONE, _, sources => .error (.source_count node.id port.name sources.length)

/-- The inputs of a node, by port name. -/
def bind_inputs (rt : Runtime V) (g : Graph Sub) (w : WiringMap)
    (seeds : Dict (String × String) V) (results : Results V) (node : Node Sub) :
    Except LookupFailure (Dict String V) :=
  node.in_ports.foldlM (bind_input rt g w seeds results node) Dict.empty

/-! ## The walk -/

/-- How a run ends early: rejected before any node ran, or at a node. -/
inductive ExecutionError (ε : Type) where
  | rejected (error : CodegenError)
  | failed (node_id : String) (cause : Failure ε)

/-- What is raised, wherever it was. -/
def ExecutionError.cause : ExecutionError ε → Failure ε
  | .rejected error => .codegen error
  | .failed _ cause => cause

/-- What a run needs besides the graph. `composite` runs a composite node
on its inputs. -/
structure Executor (Sub V C ε : Type) where
  runtime : Runtime V
  call : Behaviour Sub V C ε
  clients : Clients C
  composite : Node Sub → Dict String V → Except (Failure ε) (Dict String V)

/-- Run one node on its inputs. -/
def Executor.run_node (x : Executor Sub V C ε) (node : Node Sub) (inputs : Dict String V) :
    Except (Failure ε) (Dict String V) :=
  if node.type = COMPOSITE_NODE_TYPE then x.composite node inputs
  else do
    let definition ← Checks.require (x.runtime.registry node.type) (.unregistered node.type)
    dispatch x.call x.clients definition node inputs

/-- Bind and run one node. -/
def Executor.visit (x : Executor Sub V C ε) (g : Graph Sub) (w : WiringMap)
    (seeds : Dict (String × String) V) (results : Results V) (id : String) :
    Except (Failure ε) (Dict String V) := do
  let node ← Checks.require (g.nodes.get? id) (.lookup (.node id))
  let inputs ← (bind_inputs x.runtime g w seeds results node).mapError .lookup
  x.run_node node inputs

/-- Visit the nodes in order, up to the first that fails. -/
def Executor.walk (x : Executor Sub V C ε) (g : Graph Sub) (w : WiringMap)
    (seeds : Dict (String × String) V) (order : List String) (results : Results V) :
    Except (ExecutionError ε) (Results V) :=
  order.foldlM (fun results id => do
    let outputs ← (x.visit g w seeds results id).mapError (.failed id)
    pure (results.set id outputs)) results

/-- The guards of `_execute_functional`, giving the order and the wiring. -/
def Executor.prepare (x : Executor Sub V C ε) (g : Graph Sub)
    (seeds : Dict (String × String) V) : Except CodegenError (List String × WiringMap) := do
  g.check_paradigms
  let order ← topological_sort g
  let w ← build_wiring_map g
  g.check_bound_inputs x.runtime.registry w (fun id name => seeds.contains (id, name)) order
  pure (order, w)

/-- `_execute_functional`, at one level of nesting. -/
def Executor.execute_functional (x : Executor Sub V C ε) (g : Graph Sub)
    (seeds : Dict (String × String) V) : Except (ExecutionError ε) (Results V) := do
  let (order, w) ← (x.prepare g seeds).mapError .rejected
  x.walk g w seeds order Dict.empty

/-! ## Composites -/

/-- The seed of one dangling IN port of a subgraph. -/
def seed_input (subgraph : Graph Sub) (node_id : String) (inputs : Dict String V)
    (seeds : Dict (String × String) V) (p : Port × PortRef) :
    Except LookupFailure (Dict (String × String) V) := do
  let port_name ← subgraph.source_port_name p.2
  let value ← Checks.require (inputs.get? p.1.name) (.in_value node_id p.1.name)
  pure (seeds.set (p.2.node_id, port_name) value)

/-- The value of one OUT port of a composite. -/
def composite_output (subgraph : Graph Sub) (results : Results V) (outputs : Dict String V)
    (p : Port × PortRef) : Except LookupFailure (Dict String V) := do
  let value ← subgraph.source_value results p.2
  pure (outputs.set p.1.name value)

/-- `_execute_composite`: the inputs are seeded onto the dangling IN ports
of the subgraph, and its exposed OUT ports are the outputs, by position. -/
def execute_composite
    (run : Graph Sub → Dict (String × String) V → Except (ExecutionError ε) (Results V))
    (node : Node (Graph Sub)) (inputs : Dict String V) :
    Except (Failure ε) (Dict String V) := do
  let subgraph ← Checks.require node.subgraph (.codegen (.no_subgraph node.id))
  let boundary ← (resolve_composite_boundary subgraph).mapError .codegen
  Checks.guard (node.in_ports.length = boundary.dangling_in.length)
    (.codegen (.in_port_count node.id node.in_ports.length boundary.dangling_in.length))
  Checks.guard (node.out_ports.length = boundary.exposed_out.length)
    (.codegen (.out_port_count node.id node.out_ports.length boundary.exposed_out.length))
  let seeds ← ((node.in_ports.zip boundary.dangling_in).foldlM
    (seed_input subgraph node.id inputs) Dict.empty).mapError .lookup
  let results ← (run subgraph seeds).mapError ExecutionError.cause
  ((node.out_ports.zip boundary.exposed_out).foldlM
    (composite_output subgraph results) Dict.empty).mapError .lookup

/-- The executor of graphs nested at most `n` deep. At level `0` no node
owns a subgraph. -/
def nested_executor (rt : Runtime V) (call : ∀ n, Behaviour (Nested n) V C ε)
    (clients : Clients C) : (n : Nat) → Executor (Nested n) V C ε
  | 0 => ⟨rt, call 0, clients, fun node _ => .error (.codegen (.no_subgraph node.id))⟩
  | n + 1 => ⟨rt, call (n + 1), clients,
      execute_composite (nested_executor rt call clients n).execute_functional⟩

/-! ## `ef.execute` -/

/-- `execute` on a functional graph. The validation gate is asked about
the graph as given, and again about the materialized one. -/
def execute (rt : Runtime V) (gate : ∀ n, Graph (Nested n) → Bool)
    (call : ∀ n, Behaviour (Nested n) V C ε) (clients : Clients C) (n : Nat)
    (g : Graph (Nested n)) (params : Option (Dict String ParamValue)) :
    Except (ExecutionError ε) (Results V) := do
  Checks.guard (gate n g) (.rejected .validation)
  let materialized ← (materialize_if_needed n g params).mapError .rejected
  Checks.guard (gate n materialized) (.rejected .validation)
  (nested_executor rt call clients n).execute_functional materialized Dict.empty

end EmergentFlow
