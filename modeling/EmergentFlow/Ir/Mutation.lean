import EmergentFlow.Lib.Text
import EmergentFlow.Nodes.Contract

/-!
# Ir — Mutation

The mutation protocol (`emergentflow/ir/mutation.py`): a `GraphMutation`
proposal, `apply_mutation`, which builds the mutated graph or raises, and
`invert_mutation`, which derives the mutation that should lead back.

Applying runs four phases over copies of the node and edge maps (removes,
adds, param updates, final structural validation), and each phase is a
loop of its own below.
-/

namespace EmergentFlow

/-- Why a mutation cannot be applied or inverted. A fresh param with a blank
name fails in `Param` itself. -/
inductive MutationError where
  | remove_node (id : String)
  | remove_edge (id : String)
  | add_node (id : String)
  | add_edge (id : String)
  | set_params (node_id : String)
  | blank_param (node_id name : String)
  | contract (node_id : String) (errors : List ContractError)
  | structure (e : GraphError)
  | invert_remove_node (id : String)
  | invert_remove_edge (id : String)
  | invert_set_params (node_id : String)
  | invert_param (node_id param : String)
  deriving DecidableEq, Repr

/-- Whether a `MutationError` is what is raised: not so when `Param` rejects a
name, or when an exception leaves the node's own checks. -/
def MutationError.is_mutation_error : MutationError → Bool
  | .blank_param _ _ => false
  | .contract _ errors => errors.all fun e => match e with
      | .raised _ => false
      | _ => true
  | _ => true

/-- A proposal to change a graph: ids to remove, objects to add, and new
values for params by node id and param name. -/
structure GraphMutation (Sub : Type) where
  base_version : Int
  add_nodes : List (Node Sub) := []
  add_edges : List Edge := []
  remove_nodes : List String := []
  remove_edges : List String := []
  set_params : Dict String (Dict String ParamValue) := Dict.empty
  description : String := ""
  author : String := "human"

variable {Sub : Type}

/-! ## Cascading positions -/

def CASCADE_STEP : Rat := 60

/-- `max(xs, default=0.0)`. -/
def max_or_zero : List Rat → Rat
  | [] => 0
  | x :: xs => xs.foldl max x

/-- The candidate point at `index`: past the bounding box of the existing
positions, on the diagonal. -/
def cascade_point (existing : List Position) (index : Nat) : Position :=
  let offset := CASCADE_STEP * (index + 1)
  { x := max_or_zero (existing.map (·.x)) + offset
    y := max_or_zero (existing.map (·.y)) + offset }

/-- The `while True` loop of `_next_cascade_position`, which leaves at the
first point not taken. Distinct indices give distinct points, so one more
round than there are taken points is enough (`cascade_loop_free`). -/
def cascade_loop (existing taken : List Position) : Nat → Nat → Position × Nat
  | 0, index => (cascade_point existing index, index)
  | fuel + 1, index =>
      if cascade_point existing index ∈ taken then
        cascade_loop existing taken fuel (index + 1)
      else (cascade_point existing index, index)

/-- `_next_cascade_position`. -/
def next_cascade_position (existing : List Position) (index : Nat)
    (taken : List Position) : Position × Nat :=
  cascade_loop existing taken taken.length index

/-- Where one added node lands: as given, or cascaded when it sits at the
default position. Returns the node and the next cascade index. -/
def place_node (existing taken : List Position) (index : Nat) (node : Node Sub) :
    Node Sub × Nat :=
  if node.position = {} then
    let p := next_cascade_position existing index taken
    ({ node with position := p.1 }, p.2 + 1)
  else (node, index)

/-! ## The phases of `apply_mutation` -/

/-- The remove loops: every id must be present when its turn comes. -/
def remove_ids {α : Type} (missing : String → MutationError) :
    List String → Dict String α → Except MutationError (Dict String α)
  | [], d => .ok d
  | id :: ids, d =>
      if d.contains id then remove_ids missing ids (d.erase id) else .error (missing id)

/-- The add-nodes loop, threading the cascade index and the taken points. -/
def add_nodes_loop (existing : List Position) : List (Node Sub) → Nat → List Position →
    Dict String (Node Sub) → Except MutationError (Dict String (Node Sub))
  | [], _, _, d => .ok d
  | node :: rest, index, taken, d =>
      if d.contains node.id then .error (.add_node node.id)
      else
        let placed := place_node existing taken index node
        add_nodes_loop existing rest placed.2 (placed.1.position :: taken)
          (d.set node.id placed.1)

/-- The add-edges loop. -/
def add_edges_loop : List Edge → Dict String Edge → Except MutationError (Dict String Edge)
  | [], d => .ok d
  | edge :: rest, d =>
      if d.contains edge.id then .error (.add_edge edge.id)
      else add_edges_loop rest (d.set edge.id edge)

/-- A param under the updates: a new value when its name is updated, every
other field kept. -/
def Param.updated (updates : Dict String ParamValue) (p : Param) : Param :=
  match updates.get? p.name with
  | some v => { p with value := v }
  | none => p

/-- The new params of a node: its own ones updated, and names it does not
carry appended as fresh params. -/
def updated_params (params : List Param) (updates : Dict String ParamValue) : List Param :=
  params.map (·.updated updates)
    ++ (updates.entries.filter fun u => u.1 ∉ params.map (·.name)).map fun u =>
      { name := u.1, type_token := "any", value := u.2, default := .none }

def Node.with_params (node : Node Sub) (updates : Dict String ParamValue) : Node Sub :=
  { node with params := updated_params node.params updates }

/-- The fresh names among the updates that `Param` rejects. -/
def Node.blank_names (node : Node Sub) (updates : Dict String ParamValue) : List String :=
  updates.keys.filter fun name => name ∉ node.params.map (·.name) && !nonblank name

/-- The param-update loop: each updated node is checked against its
contract before it replaces the old one. -/
def set_params_loop (reg : NodeRegistry) :
    List (String × Dict String ParamValue) → Dict String (Node Sub) →
    Except MutationError (Dict String (Node Sub))
  | [], d => .ok d
  | (node_id, updates) :: rest, d =>
      match d.get? node_id with
      | none => .error (.set_params node_id)
      | some node =>
          match node.blank_names updates with
          | [] =>
              let candidate := node.with_params updates
              match contract_errors reg candidate with
              | [] => set_params_loop reg rest (d.set node_id candidate)
              | errors => .error (.contract node_id errors)
          | name :: _ => .error (.blank_param node_id name)

/-- Node positions, in map order. -/
def Graph.positions (g : Graph Sub) : List Position := g.nodes.values.map (·.position)

/-- `apply_mutation`. -/
def apply_mutation (reg : NodeRegistry) (g : Graph Sub) (m : GraphMutation Sub) :
    Except MutationError (Graph Sub) := do
  let nodes ← remove_ids .remove_node m.remove_nodes g.nodes
  let edges ← remove_ids .remove_edge m.remove_edges g.edges
  let nodes ← add_nodes_loop g.positions m.add_nodes 0 g.positions nodes
  let edges ← add_edges_loop m.add_edges edges
  let nodes ← set_params_loop reg m.set_params.entries nodes
  let result := { g with nodes := nodes, edges := edges }
  match result.validate_structure with
  | .ok _ => .ok result
  | .error e => .error (.structure e)

/-! ## `invert_mutation` -/

/-- The original behind an id, which must be in the graph. -/
def original {α : Type} (missing : String → MutationError) (d : Dict String α)
    (id : String) : Except MutationError α :=
  match d.get? id with
  | none => .error (missing id)
  | some a => .ok a

/-- The value a param had before: that of the first param carrying its
name. -/
def original_value (node_id : String) (params : List Param) (name : String) :
    Except MutationError (String × ParamValue) :=
  match params.find? (·.name = name) with
  | none => .error (.invert_param node_id name)
  | some p => .ok (name, p.value)

/-- The inverse of the param updates of one node. -/
def original_values (g : Graph Sub) (e : String × Dict String ParamValue) :
    Except MutationError (String × Dict String ParamValue) := do
  let node ← original .invert_set_params g.nodes e.1
  let values ← e.2.keys.mapM (original_value e.1 node.params)
  return (e.1, Dict.ofList values)

/-- `invert_mutation`. -/
def invert_mutation (g : Graph Sub) (m : GraphMutation Sub) :
    Except MutationError (GraphMutation Sub) := do
  let add_nodes ← m.remove_nodes.mapM (original .invert_remove_node g.nodes)
  let add_edges ← m.remove_edges.mapM (original .invert_remove_edge g.edges)
  let set_params ← m.set_params.entries.mapM (original_values g)
  return {
    base_version := m.base_version
    add_nodes := add_nodes
    add_edges := add_edges
    remove_nodes := m.add_nodes.map (·.id)
    remove_edges := m.add_edges.map (·.id)
    set_params := Dict.ofList set_params
    description :=
      if m.description = "" then "Inverse mutation" else "Inverse of: " ++ m.description
    author := m.author }

end EmergentFlow
