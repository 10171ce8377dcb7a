import EmergentFlow.Codegen.Assemble
import EmergentFlow.Codegen.Naming
import EmergentFlow.Lib.Scopes
import EmergentFlow.Lib.Split

/-!
# Codegen — Program

The program that `codegen/compiler.py` writes, as a program: the binding context of
a node (`codegen/context.py`), the code of a node and of a composite, and `main`.

What a node type computes is a function from the values of its IN ports and params
to those of its OUT ports. `execute` calls it, and the fragment of a node assigns
its results to the variables of the OUT ports.
-/

namespace EmergentFlow.Program

open Naming Scopes

variable {Sub V C ε : Type}

/-! ## What a program is about -/

/-- The value of each OUT port of a node of a type, from those of its IN ports, its
params and the client it asked for. -/
abbrev NodeFunction (V C ε : Type) : Type :=
  String → (String → V) → (String → Option V) → Option C → Except ε (String → V)

/-- The node types and the values they compute with. `literal` is the value of the
text that `repr` gives for a param value. -/
structure Language (V C ε : Type) where
  runtime : Runtime V
  literal : ParamValue → V
  function : NodeFunction V C ε
  clients : Clients C
  nfkd : String → String
  blake2s : Blake2s

/-- What stands for an optional IN port of a node type that a node does not have:
`"[]"` or `"None"`. -/
def absent_input (rt : Runtime V) (type name : String) : V :=
  match (rt.registry type).bind fun d => d.ports.find? fun spec =>
      spec.direction = .IN && !spec.required && spec.name = name with
  | some spec => if spec.cardinality = .MANY then rt.list_value [] else rt.none_value
  | none => rt.none_value

/-- `definition.execute`: the inputs are read with `inputs.get`. -/
def Language.behaviour (l : Language V C ε) : Behaviour Sub V C ε := fun node inputs client =>
  (l.function node.type
    (fun name => (inputs.get? name).getD (absent_input l.runtime node.type name))
    (fun name => (node.param_values.get? name).map l.literal) client).map fun out =>
      Dict.ofList (node.out_ports.map fun port => (port.name, out port.name))

/-! ## The operation of a fragment -/

/-- The name of an argument of a fragment. -/
inductive Arg where
  | input (port_name : String)
  | param (name : String)
  deriving DecidableEq

structure NodeCall where
  type : String
  out_names : List String

/-- The name that `main` gives a client. -/
def seam : ClientKind → String
  | .LLM => "client"
  | .WAREHOUSE => "warehouse"
  | .HTTP => "http"

/-- The names of the module that the code of a node type reads. -/
def global_names (registry : NodeRegistry) (type : String) : List String :=
  "ef" :: ((registry type).elim [] (·.required_client_kinds)).map seam

/-- The client that a node type is handed; there is no way to hand it two. -/
def Language.client (l : Language V C ε) (type : String) : Option (Option C) :=
  match (l.runtime.registry type).map (·.required_client_kinds) with
  | some [] => some none
  | some [kind] => some (l.clients.for_kind kind)
  | _ => none

/-- What the fragments of a program compute. -/
def Language.machine (l : Language V C ε) : Machine NodeCall Arg V where
  list := l.runtime.list_value
  globals op := global_names l.runtime.registry op.type
  apply op args := do
    let client ← l.client op.type
    let out ← (l.function op.type
      (fun name => (args.lookup (.input name)).getD (absent_input l.runtime op.type name))
      (fun name => args.lookup (.param name)) client).toOption
    pure (op.out_names.map out)

/-! ## The binding context -/

/-- A lookup of the compiler that found nothing, or too much. -/
inductive BindingError where
  | out_var (node_id port_id : String)
  | in_port (node_id port_id : String)
  | source_count (node_id port_name : String) (sources : Nat)
  | in_name (port_name : String)
  | out_name (port_name : String)
  deriving DecidableEq, Repr

/-- `NameMap.var_for`. -/
def var_for (name_map : List OutBinding) (port : PortRef) : Option String :=
  (Dict.ofList (name_map.map fun b => ((⟨b.node_id, b.port_id⟩ : PortRef), b.var_name))).get? port

/-- `NameMap.var_for`, which raises for a port that is not an OUT port of the graph. -/
def find_var (name_map : List OutBinding) (port : PortRef) : Except BindingError String :=
  Checks.require (var_for name_map port) (.out_var port.node_id port.port_id)

/-- `"[" + ", ".join(var_names) + "]"`. -/
def list_literal (names : List String) : String := "[" ++ ", ".intercalate names ++ "]"

/-- What is read for an IN port. -/
def in_expr (name_map : List OutBinding) (w : WiringMap) (node : Node Sub) (port : Port) :
    Except BindingError String := do
  let sources ← Checks.require (w.upstream ⟨node.id, port.id⟩) (.in_port node.id port.id)
  match port.cardinality, sources with
  | .MANY, sources => do
      let names ← sources.mapM (find_var name_map)
      pure (list_literal names)
  | .ONE, [] => pure "None"
  | .ONE, [src] => find_var name_map src
  | .ONE, sources => .error (.source_count node.id port.name sources.length)

/-- One round over the ports of a node. -/
def bind_context (name_map : List OutBinding) (w : WiringMap) (node : Node Sub)
    (ctx : CodegenContext) (port : Port) : Except BindingError CodegenContext :=
  match port.direction with
  | .OUT => do
      let name ← find_var name_map ⟨node.id, port.id⟩
      pure { ctx with out_vars := ctx.out_vars.set port.name name }
  | .IN => do
      let expr ← in_expr name_map w node port
      pure { ctx with in_vars := ctx.in_vars.set port.name expr }

/-- An optional IN port that the node type declares and the node lacks. -/
def backfill (in_vars : Dict String String) (spec : PortSpec) : Dict String String :=
  if spec.direction ≠ .IN ∨ spec.required ∨ in_vars.contains spec.name then in_vars
  else in_vars.set spec.name (if spec.cardinality = .MANY then "[]" else "None")

/-- `build_codegen_context`. The text of a param that is no reference is that of its
value, and is not listed. -/
def build_codegen_context (node : Node Sub) (name_map : List OutBinding) (w : WiringMap)
    (registry : NodeRegistry) : Except BindingError CodegenContext := do
  let ctx ← node.ports.foldlM (bind_context name_map w node) {}
  pure { ctx with
    in_vars := ((registry node.type).elim [] (·.ports)).foldl backfill ctx.in_vars }

/-! ## Fragments -/

/-- The names in the text of a list, after the bracket. -/
def read_names (text : List Char) : List String :=
  if text = [']'] then []
  else (Split.split [',', ' '] (List.cons_ne_nil _ _) text.dropLast).map String.ofList

/-- The expression that a text of the binding context stands for. -/
def read_expr (none_value : V) (text : String) : Expr V :=
  match text.toList with
  | '[' :: rest => .list (read_names rest)
  | _ => if text = "None" then .const none_value else .var text

/-- The code of a node, and the variables of its OUT ports. -/
structure Fragment (V : Type) where
  outs : List (PortRef × String)
  code : Command NodeCall Arg V

/-- `ctx.out_var` of the OUT ports of a node. -/
def out_vars (node : Node Sub) (ctx : CodegenContext) : Except BindingError (List String) :=
  node.out_ports.mapM fun port => Checks.require (ctx.out_vars.get? port.name) (.out_name port.name)

/-- The OUT ports of a node with their variables. -/
def out_bindings (node : Node Sub) (names : List String) : List (PortRef × String) :=
  (node.out_ports.map fun port => ⟨node.id, port.id⟩).zip names

/-- What a fragment reads for a param: the variable of its reference, or its value. -/
def param_expr (literal : ParamValue → V) (ctx : CodegenContext) (p : String × ParamValue) :
    Expr V :=
  match ctx.param_exprs.get? p.1 with
  | some name => .var name
  | none => .const (literal p.2)

/-- `definition.codegen`. -/
def Language.codegen (l : Language V C ε) (node : Node Sub) (ctx : CodegenContext) :
    Except BindingError (Fragment V) := do
  let targets ← out_vars node ctx
  let inputs := ctx.in_vars.entries.map fun e =>
    (Arg.input e.1, read_expr l.runtime.none_value e.2)
  let params := node.param_values.entries.map fun e =>
    (Arg.param e.1, param_expr l.literal ctx e)
  pure {
    outs := out_bindings node targets
    code := .call ⟨node.type, node.out_ports.map (·.name)⟩ (inputs ++ params) targets }

/-- `"p" + str(i)`. -/
def formal (i : Nat) : String := "p" ++ toString i

/-- The name of the function of a composite. -/
def fn_name (nfkd : String → String) (node : Node Sub) : String :=
  "_composite_" ++ sanitize_identifier (Naming.slugify nfkd node.id)

/-- The code around the fragments of a subgraph, in `_codegen_composite`. -/
def Language.nest (l : Language V C ε) (node : Node Sub) (ctx : CodegenContext)
    (boundary : CompositeBoundary) (inner : AssembledModule (Fragment V)) :
    Except BindingError (Fragment V) := do
  let returns ← boundary.exposed_out.mapM fun ref =>
    Checks.require ((inner.fragments.flatMap (·.outs)).lookup ref)
      (.out_var ref.node_id ref.port_id)
  let actuals ← node.in_ports.mapM fun port =>
    Checks.require (ctx.in_vars.get? port.name) (.in_name port.name)
  let targets ← out_vars node ctx
  pure {
    outs := out_bindings node targets
    code := .block (fn_name l.nfkd node) ((List.range node.in_ports.length).map formal)
      (.all (inner.fragments.map (·.code))) returns
      (actuals.map (read_expr l.runtime.none_value)) targets }

/-! ## Assembling -/

/-- The binding context of a node of a graph, with these names reserved. -/
def Language.context (l : Language V C ε) (g : Graph Sub) (reserved : List String) (w : WiringMap)
    (node : Node Sub) : Except BindingError CodegenContext :=
  build_codegen_context node (build_name_map l.nfkd l.blake2s g reserved) w l.runtime.registry

def Language.nested_context (l : Language V C ε) (g : Graph Sub) (w : WiringMap)
    (kwargs : Dict String String) (node : Node Sub) : Except BindingError CodegenContext :=
  l.context g kwargs.values w node

/-- `_assemble` of the graphs inside composites: their variables keep off the keywords
of `main`. -/
def Language.nested_assembler (l : Language V C ε) :
    (n : Nat) → Assembler (Nested n) (Fragment V) BindingError
  | 0 => ⟨l.runtime.registry, l.nested_context, l.codegen,
      fun node _ _ => .error (.codegen (.no_subgraph node.id))⟩
  | n + 1 => ⟨l.runtime.registry, l.nested_context, l.codegen,
      codegen_composite (l.nested_assembler n).assemble l.nest⟩

/-- `_assemble` of a whole graph: nothing is reserved yet. -/
def Language.assembler (l : Language V C ε) (n : Nat) :
    Assembler (Nested n) (Fragment V) BindingError :=
  { l.nested_assembler n with context := fun g w _ node => l.context g [] w node }

/-! ## `main` -/

/-- The keywords of `main`, one for each graph param. -/
def Language.kwargs (l : Language V C ε) (g : Graph Sub) : Dict String String :=
  Dict.ofList (build_graph_param_names l.nfkd l.blake2s g (build_name_map l.nfkd l.blake2s g []))

/-- The OUT ports that nothing consumes, in the order of the fragments. -/
def leaf_ports (g : Graph Sub) (w : WiringMap) (order : List String) : List PortRef :=
  order.flatMap fun id => (g.nodes.get? id).elim [] fun node =>
    (node.out_ports.map fun port => (⟨node.id, port.id⟩ : PortRef)).filter
      fun ref => (w.consumers ref).isEmpty

/-- The keywords of `main` with their defaults, its body, and the variables it returns
by name. -/
structure Main (V : Type) where
  keywords : List (String × ParamValue)
  body : Command NodeCall Arg V
  leaf_vars : List String

/-- `compile_to_code` on a functional graph, without the text. -/
def Language.compile (l : Language V C ε) (v : Validator) (n : Nat) (g : Graph (Nested n)) :
    Except (AssemblyFailure BindingError) (Main V) := do
  Checks.guard (v.passes n g) (.codegen .validation)
  let assembled ← (l.assembler n).assemble g Dict.empty (l.kwargs g)
  let order ← (topological_sort g).mapError .codegen
  let w ← (build_wiring_map g).mapError .codegen
  let leaf_vars ← ((leaf_ports g w order).mapM
    (find_var (build_name_map l.nfkd l.blake2s g []))).mapError .raised
  pure {
    keywords := assembled.graph_param_defaults
    body := .all (assembled.fragments.map (·.code))
    leaf_vars }

/-- `main(**given)`; `none` when it raises. -/
def Language.main (l : Language V C ε) (p : Main V) (given : Dict String ParamValue) :
    Option (Dict String V) := do
  guard (∀ name ∈ given.keys, name ∈ p.keywords.map Prod.fst)
  let start ← Frame.enter (p.keywords.map Prod.fst) p.body.assigned
    (p.keywords.map fun k => l.literal ((given.get? k.1).getD k.2))
  let frame ← l.machine.run [] p.body start
  let values ← p.leaf_vars.mapM fun name => (lookup [frame] name).map (name, ·)
  pure (Dict.ofList values)

/-- The variables of `main(**given)` when it returns. -/
def Language.main_frame (l : Language V C ε) (p : Main V) (given : Dict String ParamValue) :
    Option (Frame V) := do
  guard (∀ name ∈ given.keys, name ∈ p.keywords.map Prod.fst)
  let start ← Frame.enter (p.keywords.map Prod.fst) p.body.assigned
    (p.keywords.map fun k => l.literal ((given.get? k.1).getD k.2))
  l.machine.run [] p.body start

/-- The keywords for which a run overrides the stored values. -/
def Language.given (l : Language V C ε) (g : Graph Sub) (overrides : Dict String ParamValue) :
    Dict String ParamValue :=
  Dict.ofList ((l.kwargs g).entries.filterMap fun e => (overrides.get? e.1).map (e.2, ·))

end EmergentFlow.Program
