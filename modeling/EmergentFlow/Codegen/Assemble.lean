import EmergentFlow.Codegen.Executor
import EmergentFlow.Codegen.Validation

/-!
# Codegen — Assemble

The compiler of functional graphs (`codegen/compiler.py`). It makes the
checks of the executor, then emits a fragment of code for each node in
topological order; a `layout.composite` node becomes a nested function
around the fragments of its subgraph.

The names and the text of the code are not part of this model: they are
an `Emission`, and every result holds for an arbitrary one.
-/

namespace EmergentFlow

variable {Sub F ε : Type}

/-! ## Contexts -/

/-- `CodegenContext`: the expressions a node's code is made from. -/
structure CodegenContext where
  in_vars : Dict String String := Dict.empty
  out_vars : Dict String String := Dict.empty
  param_exprs : Dict String String := Dict.empty

/-- The context with the dangling IN ports of the node that an enclosing
composite supplies. -/
def CodegenContext.supply (ctx : CodegenContext)
    (param_overrides : Dict (String × String) String) (node_id : String) : CodegenContext :=
  let ours := param_overrides.entries.filter (·.1.1 = node_id)
  { ctx with in_vars := ours.foldl (fun vars e => vars.set e.1.2 e.2) ctx.in_vars }

/-- The context with the variables of the params that are references. -/
def CodegenContext.embed (ctx : CodegenContext) (refs : Dict String String) : CodegenContext :=
  { ctx with param_exprs := refs.entries.foldl (fun exprs e => exprs.set e.1 e.2) ctx.param_exprs }

/-- One round of `_param_expr_refs`. -/
def param_expr_ref (graph_param_names : Dict String String) (node_id : String)
    (refs : Dict String String) (param : Param) : Except CodegenError (Dict String String) :=
  match param.ref with
  | none => .ok refs
  | some ref => do
      let name ← Checks.require (graph_param_names.get? ref) (.undefined_ref node_id param.name ref)
      pure (refs.set param.name name)

/-- `_param_expr_refs`. -/
def param_expr_refs (graph_param_names : Dict String String) (node : Node Sub) :
    Except CodegenError (Dict String String) :=
  node.params.foldlM (param_expr_ref graph_param_names node.id) Dict.empty

/-! ## Assembling -/

/-- How an assembly ends early. -/
inductive AssemblyFailure (ε : Type) where
  | lookup (failure : LookupFailure)
  | param_name (name : String)
  | raised (error : ε)
  | unregistered (type : String)
  | codegen (error : CodegenError)

/-- `_AssembledModule`, but for what is read off the text of the fragments. -/
structure AssembledModule (F : Type) where
  fragments : List F
  graph_param_defaults : List (String × ParamValue)

/-- What an assembly needs besides the graph: the variables of the ports
of a node, the code of a node, and that of a composite node. -/
structure Assembler (Sub F ε : Type) where
  registry : NodeRegistry
  context : Graph Sub → WiringMap → Dict String String → Node Sub → Except ε CodegenContext
  codegen : Node Sub → CodegenContext → Except ε F
  composite : Node Sub → CodegenContext → Dict String String → Except (AssemblyFailure ε) F

/-- The code of a node in its context. -/
def Assembler.fragment (a : Assembler Sub F ε) (node : Node Sub) (ctx : CodegenContext)
    (graph_param_names : Dict String String) : Except (AssemblyFailure ε) F :=
  if node.type = COMPOSITE_NODE_TYPE then a.composite node ctx graph_param_names
  else do
    let _ ← Checks.require (a.registry node.type) (.unregistered node.type)
    (a.codegen node ctx).mapError .raised

/-- One round of the per-node codegen. -/
def Assembler.emit (a : Assembler Sub F ε) (g : Graph Sub) (w : WiringMap)
    (param_overrides : Dict (String × String) String) (graph_param_names : Dict String String)
    (id : String) : Except (AssemblyFailure ε) F := do
  let node ← Checks.require (g.nodes.get? id) (.lookup (.node id))
  let ctx ← (a.context g w graph_param_names node).mapError .raised
  let refs ← (param_expr_refs graph_param_names node).mapError .codegen
  a.fragment node ((ctx.supply param_overrides node.id).embed refs) graph_param_names

/-- The guards of `_assemble`, giving the order and the wiring. -/
def Assembler.prepare (a : Assembler Sub F ε) (g : Graph Sub)
    (param_overrides : Dict (String × String) String) :
    Except CodegenError (List String × WiringMap) := do
  g.check_paradigms
  let order ← topological_sort g
  let w ← build_wiring_map g
  g.check_bound_inputs a.registry w (fun id name => param_overrides.contains (id, name)) order
  pure (order, w)

/-- The variable and the stored value of one param of the graph. -/
def Graph.param_default (g : Graph Sub) (graph_param_names : Dict String String) (name : String) :
    Except (AssemblyFailure ε) (String × ParamValue) := do
  let kwarg ← Checks.require (graph_param_names.get? name) (.param_name name)
  pure (kwarg, ((g.params.get? name).map (·.value)).getD .none)

/-- `_assemble`, at one level of nesting. -/
def Assembler.assemble (a : Assembler Sub F ε) (g : Graph Sub)
    (param_overrides : Dict (String × String) String) (graph_param_names : Dict String String) :
    Except (AssemblyFailure ε) (AssembledModule F) := do
  let (order, w) ← (a.prepare g param_overrides).mapError .codegen
  let fragments ← order.foldlM (fun fragments id => do
    let fragment ← a.emit g w param_overrides graph_param_names id
    pure (fragments ++ [fragment])) []
  let graph_param_defaults ←
    (g.params.keys.insertionSort (· ≤ ·)).mapM (g.param_default graph_param_names)
  pure { fragments, graph_param_defaults }

/-! ## Composites -/

/-- The parameter of the nested function that stands for one dangling IN
port of the subgraph. -/
def param_override (subgraph : Graph Sub) (overrides : Dict (String × String) String)
    (p : PortRef × Nat) : Except LookupFailure (Dict (String × String) String) := do
  let port_name ← subgraph.source_port_name p.1
  pure (overrides.set (p.1.node_id, port_name) ("p" ++ toString p.2))

/-- `_codegen_composite`: `nest` writes the nested function and its call. -/
def codegen_composite
    (assemble : Graph Sub → Dict (String × String) String → Dict String String →
      Except (AssemblyFailure ε) (AssembledModule F))
    (nest : Node (Graph Sub) → CodegenContext → CompositeBoundary → AssembledModule F →
      Except ε F)
    (node : Node (Graph Sub)) (ctx : CodegenContext) (graph_param_names : Dict String String) :
    Except (AssemblyFailure ε) F := do
  let subgraph ← Checks.require node.subgraph (.codegen (.no_subgraph node.id))
  let boundary ← (resolve_composite_boundary subgraph).mapError .codegen
  Checks.guard (node.in_ports.length = boundary.dangling_in.length)
    (.codegen (.in_port_count node.id node.in_ports.length boundary.dangling_in.length))
  Checks.guard (node.out_ports.length = boundary.exposed_out.length)
    (.codegen (.out_port_count node.id node.out_ports.length boundary.exposed_out.length))
  let overrides ←
    (boundary.dangling_in.zipIdx.foldlM (param_override subgraph) Dict.empty).mapError .lookup
  let inner ← assemble subgraph overrides graph_param_names
  (nest node ctx boundary inner).mapError .raised

/-- The names and the text of the code: the keyword of a graph param, the
variables of the ports of a node, the code of a node and of a composite
node, and the module around the fragments, formatted. -/
structure Emission (F ε : Type) where
  kwarg : ∀ n, Graph (Nested n) → String → String
  context : ∀ n, Graph (Nested n) → WiringMap → Dict String String → Node (Nested n) →
    Except ε CodegenContext
  codegen : ∀ n, Node (Nested n) → CodegenContext → Except ε F
  nest : ∀ n, Node (Graph (Nested n)) → CodegenContext → CompositeBoundary →
    AssembledModule F → Except ε F
  render : AssembledModule F → Except ε String

/-- `build_graph_param_names`. -/
def Emission.build_graph_param_names (em : Emission F ε) (n : Nat) (g : Graph (Nested n)) :
    Dict String String := g.params.mapValues fun name _ => em.kwarg n g name

/-- The assembler of graphs nested at most `n` deep. -/
def nested_assembler (registry : NodeRegistry) (em : Emission F ε) :
    (n : Nat) → Assembler (Nested n) F ε
  | 0 => ⟨registry, em.context 0, em.codegen 0,
      fun node _ _ => .error (.codegen (.no_subgraph node.id))⟩
  | n + 1 => ⟨registry, em.context (n + 1), em.codegen (n + 1),
      codegen_composite (nested_assembler registry em n).assemble (em.nest n)⟩

/-! ## `ef.compile_to_code` -/

/-- `compile_to_code` on a functional graph. -/
def compile_to_code (v : Validator) (em : Emission F ε) (n : Nat) (g : Graph (Nested n)) :
    Except (AssemblyFailure ε) String := do
  Checks.guard (v.passes n g) (.codegen .validation)
  let assembled ← (nested_assembler v.registry em n).assemble g Dict.empty
    (em.build_graph_param_names n g)
  (em.render assembled).mapError .raised

end EmergentFlow
