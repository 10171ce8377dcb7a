import EmergentFlow.Ir.Graph

/-!
# Nodes — Contract

What the rest of the program reads off a node type: its declared ports
and params, and the checks of a node's params against them
(`emergentflow/nodes/`). A registry maps a type key to its definition;
the catalog itself is data, so every result is about an arbitrary one.
-/

namespace EmergentFlow

/-- A declared port of a node type. `required` constrains IN ports only. -/
structure PortSpec where
  name : String
  direction : Direction
  data_type : String := "any"
  cardinality : Cardinality := .ONE
  required : Bool := true
  deriving DecidableEq, Repr

/-- A declared param of a node type. `check_hints` is `_check_hints`
applied to the param's own name and hints: the messages for a value. -/
structure ParamSpec where
  name : String
  type_token : String
  required : Bool := true
  ref_supported : Bool := false
  check_hints : ParamValue → List String := fun _ => []

/-- The kinds of injected client a node can need (ADR 0018). -/
inductive ClientKind where
  | LLM
  | WAREHOUSE
  | HTTP
  deriving DecidableEq, Repr

/-- One finding of `validate_node`. `raised` stands for an exception that
leaves it, so that the caller gets no findings at all. -/
inductive ContractError where
  | type_mismatch (actual declared : String)
  | undeclared (name : String)
  | missing (name : String)
  | hint (message : String)
  | raised (exception : String)
  deriving DecidableEq, Repr

/-- The declarative half of a node definition, and what its own
`validate_node` adds to the inherited one, from the values of the params. -/
structure NodeDefinition where
  type : String
  cacheable : Bool := true
  required_client_kinds : List ClientKind := []
  ports : List PortSpec := []
  params : List ParamSpec := []
  own_checks : Dict String ParamValue → List ContractError := fun _ => []

/-- `registry.try_get`. -/
abbrev NodeRegistry := String → Option NodeDefinition

/-- The names of a node type's required IN ports; empty when the type is
not registered. -/
def required_in_port_names (reg : NodeRegistry) (node_type : String) : List String :=
  match reg node_type with
  | none => []
  | some d => (d.ports.filter fun s => s.direction = .IN && s.required).map (·.name)

variable {Sub : Type}

/-- `{p.name: p.value for p in node.params}`. -/
def Node.param_values (node : Node Sub) : Dict String ParamValue :=
  Dict.ofList (node.params.map fun p => (p.name, p.value))

/-- The check of one declared param against the values a node carries. -/
def ParamSpec.validate (ps : ParamSpec) (values : Dict String ParamValue) :
    List ContractError :=
  match values.get? ps.name with
  | none => if ps.required then [.missing ps.name] else []
  | some .none => if ps.required then [.missing ps.name] else []
  | some value => (ps.check_hints value).map .hint

/-- `NodeDefinition.validate_node`, with what the definition adds. -/
def NodeDefinition.validate_node (d : NodeDefinition) (node : Node Sub) :
    List ContractError :=
  let values := node.param_values
  (if node.type ≠ d.type then [.type_mismatch node.type d.type] else [])
    ++ (values.keys.filter fun name => name ∉ d.params.map (·.name)).map .undeclared
    ++ (d.params.flatMap fun ps => ps.validate values)
    ++ d.own_checks values

/-- The contract findings for a node under a registry: none when its type
is not registered. -/
def contract_errors (reg : NodeRegistry) (node : Node Sub) : List ContractError :=
  match reg node.type with
  | none => []
  | some d => d.validate_node node

end EmergentFlow
