import EmergentFlow.Codegen.Wiring
import EmergentFlow.Types.Compatibility
import EmergentFlow.Validity.Leakage

/-!
# Codegen — Validation

The diagnostics of a whole graph (`codegen/validation.py`), over the types
inferred for its OUT ports (`codegen/inference.py`), and the gate that
`compile_to_code` and `execute` both ask first.

What a node type infers, the rules of the validity pack and Python's
`repr` of a string are data of a `Validator`.
-/

namespace EmergentFlow

/-! ## Diagnostics -/

/-- `Severity`. -/
inductive Severity where
  | ERROR
  | WARNING
  | INFO
  deriving DecidableEq, Repr

/-- `Diagnostic`. -/
structure Diagnostic where
  severity : Severity
  code : String
  message : String
  edge_id : Option String := none
  node_id : Option String := none
  port_id : Option String := none
  port_name : Option String := none
  expected_type : Option String := none
  actual_type : Option String := none
  source : Option String := none
  rule_id : Option String := none
  related_node_ids : List String := []
  deriving DecidableEq, Repr

/-- `Diagnostics`. -/
structure Diagnostics where
  diagnostics : List Diagnostic
  edge_compatibility : Dict String (Option Bool)

/-- `Diagnostics.errors`. -/
def Diagnostics.errors (d : Diagnostics) : List Diagnostic :=
  d.diagnostics.filter (·.severity = .ERROR)

/-- What the checks read besides the graph. -/
structure Validator where
  registry : NodeRegistry
  types : TypeRegistry
  infer_types : ∀ n, Node (Nested n) → Dict String String → Dict String String
  validity : ∀ n, Graph (Nested n) → Except CodegenError (List ValidityFinding)
  repr : String → String

variable {Sub : Type}

/-! ## Structure -/

/-- The findings about one IN port of a node. -/
def Validator.port_diagnostics (v : Validator) (g : Graph Sub) (node : Node Sub) (port : Port) :
    List Diagnostic :=
  let count := (g.incoming ⟨node.id, port.id⟩).length
  let card := check_cardinality port.cardinality count port.name
  let finding : Diagnostic := {
    severity := .ERROR, code := "cardinality_violation", message := card.reason
    node_id := some node.id, port_id := some port.id, port_name := some port.name }
  (if card.ok then [] else [finding]) ++
    -- a MANY port may be required as well, and any edge will do
    if count = 0 ∧ port.name ∈ required_in_port_names v.registry node.type then [{ finding with
      code := "required_input_unconnected"
      message := "required IN port " ++ v.repr port.name ++ " on node " ++ v.repr node.id ++
        " has no inbound edge" }]
    else []

/-- `_collect_structural_diagnostics`. -/
def Validator.structural_diagnostics (v : Validator) (g : Graph Sub) : List Diagnostic :=
  g.sorted_nodes.flatMap fun node => node.in_ports.flatMap (v.port_diagnostics g node)

/-! ## Params -/

/-- The declared param of this name; the later of two counts. -/
def NodeDefinition.spec (d : NodeDefinition) (name : String) : Option ParamSpec :=
  d.params.reverse.find? (·.name = name)

/-- `NodeDefinition.validate_param_values`. -/
def NodeDefinition.validate_param_values (d : NodeDefinition) (node : Node Sub) : List String :=
  node.params.flatMap fun param =>
    match d.spec param.name, param.value with
    | none, _ => []
    | some _, .none => []
    | some spec, value => spec.check_hints value

/-- `_collect_param_diagnostics`. -/
def Validator.param_diagnostics (v : Validator) (g : Graph Sub) : List Diagnostic :=
  g.sorted_nodes.flatMap fun node =>
    match v.registry node.type with
    | none => []
    | some d => (d.validate_param_values node).map fun message => {
        severity := .ERROR, code := "param_invalid", node_id := some node.id
        message := "node " ++ v.repr node.id ++ " (" ++ node.type ++ "): " ++ message }

/-! ## References -/

/-- `_param_token_compatible`. -/
def param_token_compatible (source_type target_type : String) : Bool :=
  if source_type = target_type ∨ source_type = "any" ∨ target_type = "any" then true
  else source_type = "int" && target_type = "float"

/-- The finding about one param of a node: `top` are the params of the
outermost graph, which references at every depth name. -/
def Validator.ref_diagnostic (v : Validator) (top : Dict String Param) (node : Node Sub)
    (param : Param) : Option Diagnostic :=
  param.ref.bind fun ref =>
    let finding code message : Diagnostic := {
      severity := .ERROR, code, node_id := some node.id
      message := "node " ++ v.repr node.id ++ " (" ++ node.type ++ ") param " ++
        v.repr param.name ++ " references graph parameter " ++ v.repr ref ++ message }
    match top.get? ref with
    | none => some (finding "ref_unresolved" " which is not defined")
    | some graph_param =>
        match (v.registry node.type).bind (·.spec param.name) with
        | none => some (finding "ref_not_supported"
            " but this node's codegen does not support graph-parameter references")
        | some spec =>
            if !spec.ref_supported then
              some (finding "ref_not_supported"
                " but this node's codegen does not support graph-parameter references")
            else if param_token_compatible graph_param.type_token spec.type_token then none
            else some { finding "ref_type_mismatch" (" with type token " ++
                v.repr graph_param.type_token ++
                " which is incompatible with the param's declared type token " ++
                v.repr spec.type_token) with
              expected_type := some spec.type_token
              actual_type := some graph_param.type_token }

/-- `_visit` of `_collect_param_ref_diagnostics`, at one level of nesting. -/
def Validator.ref_diagnostics_with (v : Validator) (inside : Sub → List Diagnostic)
    (top : Dict String Param) (g : Graph Sub) : List Diagnostic :=
  g.sorted_nodes.flatMap fun node =>
    (match node.subgraph with
      | none => []
      | some sub => inside sub) ++ node.params.filterMap (v.ref_diagnostic top node)

/-- `_visit`: the nodes of a subgraph before the params of its owner. -/
def Validator.ref_diagnostics (v : Validator) (top : Dict String Param) :
    (n : Nat) → Graph (Nested n) → List Diagnostic
  | 0 => v.ref_diagnostics_with Empty.elim top
  | n + 1 => v.ref_diagnostics_with (v.ref_diagnostics top n) top

/-! ## Inference -/

structure ResolvedPortType where
  node_id : String
  port_id : String
  port_name : String
  type : String
  deriving DecidableEq, Repr

structure UnboundInput where
  node_id : String
  port_id : String
  port_name : String
  deriving DecidableEq, Repr

/-- `InferenceResult`. -/
structure InferenceResult where
  resolved : List ResolvedPortType := []
  unbound : List UnboundInput := []

/-- `InferenceResult.type_of`. -/
def InferenceResult.type_of (r : InferenceResult) (port : PortRef) : Option String :=
  (r.resolved.reverse.find? fun p => p.node_id = port.node_id ∧ p.port_id = port.port_id).map
    (·.type)

/-- `_reduce_inbound_types`. -/
def reduce_inbound_types (tokens : List String) : String :=
  match tokens.dedup with
  | [token] => token
  | _ => TOP_TYPE

/-- The input types of a node so far, and what is unbound, with one more IN port. -/
def InferenceResult.bind_port (w : WiringMap) (node : Node Sub)
    (st : InferenceResult × Dict String String) (port : Port) :
    InferenceResult × Dict String String :=
  match (w.upstream ⟨node.id, port.id⟩).getD [] with
  | [] => ({ st.1 with unbound := st.1.unbound ++ [⟨node.id, port.id, port.name⟩] }, st.2)
  | sources =>
      let tokens := sources.map fun s => (st.1.type_of s).getD TOP_TYPE
      (st.1, st.2.set port.name (reduce_inbound_types tokens))

/-- One round of the inference. -/
def Validator.infer_node (v : Validator) {n : Nat} (w : WiringMap) (r : InferenceResult)
    (node : Node (Nested n)) : InferenceResult :=
  let (r, input_types) := node.in_ports.foldl (InferenceResult.bind_port w node) (r, Dict.empty)
  let declared := Dict.ofList (node.out_ports.map fun (p : Port) => (p.name, p.data_type))
  let out_types := match v.registry node.type with
    | some _ => v.infer_types n node input_types
    | none => declared
  let resolved : List ResolvedPortType := node.out_ports.map fun p =>
    ⟨node.id, p.id, p.name, (out_types.get? p.name).getD p.data_type⟩
  { r with resolved := r.resolved ++ resolved }

/-- `infer_graph_types`. -/
def Validator.infer_graph_types (v : Validator) (n : Nat) (g : Graph (Nested n)) :
    Except CodegenError InferenceResult := do
  let w ← build_wiring_map g
  let order ← topological_sort g
  pure (order.foldl (fun r id =>
    match g.nodes.get? id with
    | none => r
    | some node => v.infer_node w r node) {})

/-- The port a reference denotes; the later of two counts. -/
def Graph.find_port (g : Graph Sub) (r : PortRef) : Option Port :=
  (g.nodes.get? r.node_id).bind fun node => node.ports.reverse.find? (·.id = r.port_id)

/-- The verdict on one edge, and the finding if it is not compatible. -/
def Validator.edge_diagnostic (v : Validator) (g : Graph Sub) (inference : InferenceResult)
    (edge_id : String) (e : Edge) : Option (Option Bool × Option Diagnostic) :=
  match g.find_port e.source, g.find_port e.target with
  | some source_port, some target_port =>
      -- an inferred type stands over the declared one, unless it is empty
      let resolved := (inference.type_of e.source).filter (· ≠ "")
      let source_type := resolved.getD source_port.data_type
      let result := is_compatible v.types source_type target_port.data_type
      let finding severity code : Diagnostic := {
        severity, code, message := result.reason, edge_id := some edge_id
        node_id := some e.target.node_id, port_id := some e.target.port_id
        port_name := some target_port.name
        expected_type := some target_port.data_type, actual_type := some source_type }
      match result.verdict with
      | .COMPATIBLE => some (some true, none)
      | .INCOMPATIBLE => some (some false, some (finding .ERROR "type_incompatible"))
      | .UNKNOWN => some (none, some (finding .WARNING "type_unknown"))
  | _, _ => none

/-- The edges by ascending id. -/
def Graph.sorted_edges (g : Graph Sub) : List (String × Edge) :=
  g.edges.entries.insertionSort (·.1 ≤ ·.1)

/-- `_collect_type_diagnostics`: none when a cardinality error stops the inference. -/
def Validator.type_diagnostics (v : Validator) (n : Nat) (g : Graph (Nested n)) :
    Except CodegenError (List Diagnostic × Dict String (Option Bool)) :=
  match v.infer_graph_types n g with
  | .error (.cardinality _ _ _) => .ok ([], Dict.empty)
  | .error e => .error e
  | .ok inference =>
      let verdicts := g.sorted_edges.filterMap fun p =>
        (v.edge_diagnostic g inference p.1 p.2).map (p.1, ·)
      .ok (verdicts.filterMap (·.2.2), Dict.ofList (verdicts.map fun p => (p.1, p.2.1)))

/-! ## The gate -/

/-- `Severity(finding.severity)`. -/
def Severity.of (name : String) : Severity :=
  if name = "error" then .ERROR else if name = "warning" then .WARNING else .INFO

/-- `_collect_validity_diagnostics`. -/
def Validator.validity_diagnostics (v : Validator) (n : Nat) (g : Graph (Nested n)) :
    Except CodegenError (List Diagnostic) := do
  let findings ← v.validity n g
  pure (findings.map fun finding => {
    severity := .of finding.severity, code := finding.rule_id, message := finding.message
    node_id := finding.node_id, related_node_ids := finding.related_node_ids
    rule_id := some finding.rule_id })

/-- `validate`: a cycle is not a finding, the inference raises it, and the rules
of the validity pack may raise too. -/
def Validator.validate (v : Validator) (n : Nat) (g : Graph (Nested n)) :
    Except CodegenError Diagnostics := do
  let (type_diagnostics, edge_compatibility) ← v.type_diagnostics n g
  let validity_diagnostics ← v.validity_diagnostics n g
  let findings := v.structural_diagnostics g ++ v.param_diagnostics g ++
    v.ref_diagnostics g.params n g ++ type_diagnostics ++ validity_diagnostics
  pure {
    diagnostics := findings.map ({ · with source := some "validator" })
    edge_compatibility }

/-- `enforce_validation_gate`. -/
def Validator.enforce_validation_gate (v : Validator) (n : Nat) (g : Graph (Nested n)) :
    Except CodegenError Diagnostics := do
  let diagnostics ← v.validate n g
  Checks.guard diagnostics.errors.isEmpty .validation
  pure diagnostics

/-- Does the gate let the graph through? -/
def Validator.passes (v : Validator) (n : Nat) (g : Graph (Nested n)) : Bool :=
  (v.enforce_validation_gate n g).isOk

end EmergentFlow
