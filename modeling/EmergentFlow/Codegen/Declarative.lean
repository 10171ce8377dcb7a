import Mathlib.Algebra.GroupWithZero.Nat
import EmergentFlow.Codegen.Naming
import EmergentFlow.Lib.Chain
import EmergentFlow.Lib.Decimal
import EmergentFlow.Lib.Probe

/-!
# Codegen — Declarative

The `nn.Module` path (`codegen/declarative.py`): the check that the layers form one chain,
and the emitted class, which assigns one attribute for each layer and threads one variable
through them. The NFKD form of a text, the layers' own checks and constructor expressions
and `str.isidentifier` are parameters.
-/

namespace EmergentFlow.Declarative

variable {Sub : Type}

inductive DeclarativeError where
  | agent_node
  | no_module
  | many_modules
  | no_subgraph (node_id : String)
  | empty_subgraph (node_id : String)
  | unsupported_layer (type : String)
  | layer_paradigm (node_id : String) (paradigm : Paradigm)
  | invalid_params (type node_id : String) (errors : List String)
  | traversal (error : CodegenError)
  | not_a_chain (nodes edges : Nat)
  | fan_in_or_out (type node_id : String)
  | ends (heads tails : Nat)
  deriving DecidableEq, Repr

/-! ## The chain check -/

/-- How many edges end in the IN ports of a node, port by port. Every one of them has a
binding, so that `upstream` does not raise. -/
def in_count (wiring : WiringMap) (node : Node Sub) : Nat :=
  (node.in_ports.map fun p => ((wiring.upstream ⟨node.id, p.id⟩).getD []).length).sum

def out_count (wiring : WiringMap) (node : Node Sub) : Nat :=
  (node.out_ports.map fun p => (wiring.consumers ⟨node.id, p.id⟩).length).sum

/-- The body of the loop: the heads and tails so far. -/
def count_ends (wiring : WiringMap) (ends : Nat × Nat) (node : Node Sub) :
    Except DeclarativeError (Nat × Nat) :=
  if 1 < in_count wiring node ∨ 1 < out_count wiring node then
    .error (.fan_in_or_out node.type node.id)
  else
    .ok (if in_count wiring node = 0 then ends.1 + 1 else ends.1,
      if out_count wiring node = 0 then ends.2 + 1 else ends.2)

/-- `_require_linear_chain`. -/
def require_linear_chain (subgraph : Graph Sub) (wiring : WiringMap) :
    Except DeclarativeError Unit := do
  let n := subgraph.nodes.size
  if (subgraph.edges.size : Int) ≠ n - 1 then throw (.not_a_chain n subgraph.edges.size)
  let (heads, tails) ← subgraph.nodes.values.foldlM (count_ends wiring) (0, 0)
  if heads ≠ 1 ∨ tails ≠ 1 then throw (.ends heads tails)

/-! ## Validation -/

def AGENT_NODE_PREFIXES : List String := ["agent.", "langgraph."]

def SUPPORTED_LAYER_TYPES : List String := ["nn.linear", "nn.relu"]

/-- `_check_for_agent_nodes`. -/
def check_for_agent_nodes (graph : Graph Sub) : Except DeclarativeError Unit :=
  graph.nodes.values.forM fun node =>
    Checks.guard (AGENT_NODE_PREFIXES.all fun start =>
      !start.toList.isPrefixOf node.type.toList) .agent_node

/-- The checks on one layer. -/
def check_layer (validate_node : Node Sub → List String) (node : Node Sub) :
    Except DeclarativeError Unit := do
  Checks.guard (node.type ∈ SUPPORTED_LAYER_TYPES) (.unsupported_layer node.type)
  Checks.guard (node.paradigm = .DECLARATIVE) (.layer_paradigm node.id node.paradigm)
  Checks.guard (validate_node node = [])
    (.invalid_params node.type node.id (validate_node node))

/-- What both paths need of a graph: `_prepare_declarative`. -/
structure Prepared (Sub : Type) where
  module_node : Node (Graph Sub)
  subgraph : Graph Sub
  order : List String
  wiring : WiringMap

def prepare_declarative (validate_node : Node Sub → List String) (graph : Graph (Graph Sub)) :
    Except DeclarativeError (Prepared Sub) := do
  check_for_agent_nodes graph
  match graph.nodes.values.filter (·.type = "nn.module") with
  | [] => throw .no_module
  | [module_node] =>
      let some subgraph := module_node.subgraph | throw (.no_subgraph module_node.id)
      if subgraph.nodes.size = 0 then throw (.empty_subgraph module_node.id)
      check_for_agent_nodes subgraph
      subgraph.nodes.values.forM (check_layer validate_node)
      let order ← (topological_sort subgraph).mapError .traversal
      let wiring ← (build_wiring_map subgraph).mapError .traversal
      require_linear_chain subgraph wiring
      pure { module_node, subgraph, order, wiring }
  | _ => throw .many_modules

/-! ## Names -/

/-- The names tried for a layer: its base name, then with the suffixes `_2`, `_3` and so on. -/
def attr_candidate (base : String) : Nat → String
  | 0 => base
  | n + 1 => base ++ "_" ++ (n + 2).repr

theorem attr_candidate_injective (base : String) : Function.Injective (attr_candidate base) := by
  have hlonger : ∀ n, attr_candidate base (n + 1) ≠ base := by
    intro n heq
    have hlength := congrArg String.length heq
    rw [attr_candidate, String.length_append, String.length_append] at hlength
    have hone : "_".length = 1 := rfl
    omega
  intro m n h
  cases m with
  | zero =>
      cases n with
      | zero => rfl
      | succ n => exact absurd h.symm (hlonger n)
  | succ m =>
      cases n with
      | zero => exact absurd h (hlonger m)
      | succ n =>
          have hrepr := Decimal.repr_inj.mp ((String.append_right_inj _).mp h)
          omega

/-- The name a layer gets when some are used. -/
def attr_name (base : String) (used : List String) : String :=
  attr_candidate base
    (Probe.firstFree (attr_candidate_injective base) used.toFinset 0)

/-- `_assign_attr_names`, the names already used and the layers still to name. -/
def assign_attr_names (base_of : String → String) (used : List String) :
    List String → List (String × String)
  | [] => []
  | node_id :: rest =>
      let attr := attr_name (base_of node_id) used
      (node_id, attr) :: assign_attr_names base_of (attr :: used) rest

section Emit

variable (nfkd : String → String)

/-- The base name of a node of the graph. -/
def base_of (subgraph : Graph Sub) (node_id : String) : String :=
  ((subgraph.nodes.get? node_id).map (Naming.base_name nfkd)).getD ""

def attr_for (subgraph : Graph Sub) (order : List String) : List (String × String) :=
  assign_attr_names (base_of nfkd subgraph) [] order

/-- `_forward_input_name`. -/
def forward_input_name (subgraph : Graph Sub) (order : List String) (wiring : WiringMap) :
    String :=
  let ports := order.flatMap fun node_id =>
    ((subgraph.nodes.get? node_id).map fun node => node.in_ports.map fun p => (node, p)).getD []
  match ports.find? fun p => (wiring.upstream ⟨p.1.id, p.2.id⟩).getD [] = [] with
  | some p => Naming.identifier_or nfkd p.2.name "x"
  | none => "x"

/-! ## The emitted class -/

/-- `target = self.attr(arg)`. -/
structure CallStmt where
  target : String
  attr : String
  arg : String
  deriving DecidableEq, Repr

/-- The emitted class: `__init__` assigns each attribute the layer of a node, `forward` has one
parameter besides `self`. -/
structure ModuleSource where
  class_name : String
  imports : List String
  init : List (String × String)
  ctors : List (String × String)
  param : String
  forward : List CallStmt
  result : String
  deriving DecidableEq, Repr

/-- The class of an order of layers. -/
def emit_module (layer_constructor : Node Sub → String × List String) (class_name : String)
    (subgraph : Graph Sub) (order : List String) (wiring : WiringMap) : ModuleSource :=
  let attrs := attr_for nfkd subgraph order
  let cur := forward_input_name nfkd subgraph order wiring
  let layers := order.filterMap fun node_id =>
    (subgraph.nodes.get? node_id).map fun node => (node_id, layer_constructor node)
  { class_name
    imports := ((layers.flatMap (·.2.2)).dedup).insertionSort (· ≤ ·)
    init := attrs.map fun a => (a.2, a.1)
    ctors := layers.map fun l => (l.1, l.2.1)
    param := cur
    forward := attrs.map fun a => ⟨cur, a.2, cur⟩
    result := cur }

/-- `_class_name`. -/
def class_name (is_identifier : String → Bool) (label : Option String) : String :=
  let usable := fun name => is_identifier name && name ∉ Naming.KEYWORDS
  match label with
  | none => "Module"
  | some label =>
      if label ≠ "" ∧ usable label then label
      else
        let slug := String.ofList (py_strip label.toList)
        if slug = "" then "Module"
        else
          let base := Naming.base_name nfkd
            ({ id := "", type := "nn.module", label := some slug } : Node Sub)
          let parts := (base.toList.splitOn '_').filter (· ≠ [])
          let pascal := String.ofList (parts.flatMap fun part =>
            -- upper case for the first letter only: the rest of a part stays as it is
            match part with
            | [] => []
            | c :: rest => c.toUpper :: rest)
          if pascal ≠ "" ∧ usable pascal then pascal else "Module"

/-- `compile_declarative`, before the source is formatted. -/
def compile_declarative (validate_node : Node Sub → List String)
    (layer_constructor : Node Sub → String × List String) (is_identifier : String → Bool)
    (graph : Graph (Graph Sub)) : Except DeclarativeError ModuleSource := do
  let p ← prepare_declarative validate_node graph
  return emit_module nfkd layer_constructor (@class_name Sub nfkd is_identifier p.module_node.label)
    p.subgraph p.order p.wiring

end Emit

/-! ## Running the class -/

/-- One statement: the variable is read and written among the locals of `forward`. -/
def CallStmt.run {V : Type} (call : String → V → Option V) (locals : String → Option V)
    (stmt : CallStmt) : Option (String → Option V) := do
  let value ← (locals stmt.arg).bind (call stmt.attr)
  return fun name => if name = stmt.target then some value else locals name

/-- Calling `forward` of an instance, with room for a number of nested calls. The attribute
`self.attr` is what the class has under the name, `forward` itself or what it inherits from
`nn.Module`; a layer that `__init__` assigned is found only after that. With a parameter
`self` beside `self` there is no class. -/
def ModuleSource.call_forward {V : Type} (m : ModuleSource)
    (inherited : String → Option (V → Option V)) (layer : String → V → V) : Nat → V → Option V
  | 0, _ => none
  | room + 1, x =>
      -- two parameters of one name: the call does not get past the definition
      if m.param = "self" then none
      else
        let call := fun attr v =>
          if attr = "forward" then m.call_forward inherited layer room v
          else
            -- a method of the base class is found before a layer of that name
            match inherited attr with
            | some method => method v
            -- a later assignment in `__init__` stands over an earlier one
            | none => (m.init.reverse.find? (·.1 = attr)).map fun a => layer a.2 v
        (m.forward.foldlM (CallStmt.run call) fun name =>
          if name = m.param then some x else none).bind (· m.result)

end EmergentFlow.Declarative
