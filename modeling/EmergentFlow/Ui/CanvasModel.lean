import EmergentFlow.Ir.Graph

/-!
# Ui — CanvasModel

The model of the canvas (`ui/src/store/model.ts`), the graph document of the wire
(`ui/src/generated/ir.ts`) and the mappers between the two (`ui/src/store/ir.ts`).
A subgraph is carried along untouched, so both are generic in it.

`filled` is the graph a document stands for: a member that is absent has its
default. Two documents of one graph differ in what they spell out only.
-/

namespace EmergentFlow.Canvas

variable {Sub : Type}

/-- A member of an object that may be absent or `null`. -/
abbrev Nullable (α : Type) : Type := Option (Option α)

/-! ## The document -/

/-- An end of an edge. The port is `undefined` where the canvas looked one up
that is not there. -/
structure EndModel where
  node_id : String
  port_id : Option String
  deriving DecidableEq, Repr

structure IRParam where
  name : String
  type_token : String
  value : Option ParamValue := none
  default : Option ParamValue := none
  ref : Nullable String := none
  description : Nullable String := none

structure IRPort where
  id : Option String := none
  name : String
  direction : Direction
  data_type : Option String := none
  cardinality : Option Cardinality := none
  label : Nullable String := none

structure IRPosition where
  x : Option Rat := none
  y : Option Rat := none

structure IRNode (Sub : Type) where
  id : Option String := none
  type : String
  label : Nullable String := none
  paradigm : Option Paradigm := none
  params : Option (List IRParam) := none
  ports : Option (List IRPort) := none
  position : Option IRPosition := none
  group_id : Nullable String := none
  subgraph : Nullable Sub := none

structure IREdge where
  id : Option String := none
  source : EndModel
  target : EndModel
  type_compatible : Nullable Bool := none

/-- `Graph` of the generated types. -/
structure IRGraph (Sub : Type) where
  schema_version : Option Nat := none
  paradigm : Option Paradigm := none
  name : Nullable String := none
  nodes : Option (Dict String (IRNode Sub)) := none
  edges : Option (Dict String IREdge) := none
  params : Option (Dict String IRParam) := none

/-! ## The graph of a document -/

def IRParam.filled (p : IRParam) : Param where
  name := p.name
  type_token := p.type_token
  value := p.value.getD .none
  default := p.default.getD .none
  ref := p.ref.join
  description := p.description.join

def IRPort.filled (p : IRPort) : Port where
  id := p.id.getD ""
  name := p.name
  direction := p.direction
  data_type := p.data_type.getD "any"
  cardinality := p.cardinality.getD .ONE
  label := p.label.join

def IRPosition.filled (p : IRPosition) : Position where
  x := p.x.getD 0
  y := p.y.getD 0

def IRNode.filled (node : IRNode Sub) : Node Sub where
  id := node.id.getD ""
  type := node.type
  label := node.label.join
  paradigm := node.paradigm.getD .FUNCTIONAL
  params := (node.params.getD []).map (·.filled)
  ports := (node.ports.getD []).map (·.filled)
  position := (node.position.getD {}).filled
  group_id := node.group_id.join
  subgraph := node.subgraph.join

def EndModel.filled (e : EndModel) : PortRef := ⟨e.node_id, e.port_id.getD ""⟩

def IREdge.filled (edge : IREdge) : Edge where
  id := edge.id.getD ""
  source := edge.source.filled
  target := edge.target.filled
  type_compatible := edge.type_compatible.join

def IRGraph.filled (graph : IRGraph Sub) : Graph Sub where
  schema_version := graph.schema_version.getD 2
  paradigm := graph.paradigm.getD .FUNCTIONAL
  name := graph.name.join
  nodes := (graph.nodes.getD .empty).mapValues fun _ node => node.filled
  edges := (graph.edges.getD .empty).mapValues fun _ edge => edge.filled
  params := (graph.params.getD .empty).mapValues fun _ param => param.filled

/-! ## The model -/

/-- A coordinate; `none` is the `Infinity` that `Math.min` of nothing gives. -/
structure GroupPosition where
  x : Option Rat
  y : Option Rat
  deriving DecidableEq, Repr

structure GroupMeta where
  label : String
  color : String
  position : GroupPosition
  deriving DecidableEq, Repr

structure PortModel where
  id : String
  name : String
  direction : Direction
  dataType : String
  cardinality : Cardinality
  label : Nullable String := none

structure ParamModel where
  name : String
  typeToken : String
  value : ParamValue
  default : Option ParamValue := none
  ref : Nullable String := none
  description : Nullable String := none

structure NodeModel (Sub : Type) where
  id : String
  type : String
  label : Option String := none
  paradigm : Paradigm
  params : List ParamModel
  ports : List PortModel
  position : Position
  groupId : Nullable String := none
  subgraph : Nullable Sub := none

structure EdgeModel where
  id : String
  source : EndModel
  target : EndModel
  deriving DecidableEq, Repr

structure CanvasModel (Sub : Type) where
  schemaVersion : Option Nat := none
  name : Option String := none
  paradigm : Paradigm
  nodes : Dict String (NodeModel Sub)
  edges : Dict String EdgeModel
  groupMeta : Option (Dict String GroupMeta) := none
  params : Option (Dict String ParamModel) := none

/-! ## The mappers -/

def paramToIR (param : ParamModel) : IRParam where
  name := param.name
  type_token := param.typeToken
  value := some param.value
  default := param.default
  ref := param.ref
  description := param.description

def paramFromIR (param : IRParam) : ParamModel where
  name := param.name
  typeToken := param.type_token
  value := param.value.getD .none
  default := some (param.default.getD .none)
  ref := param.ref
  description := param.description

def portToIR (port : PortModel) : IRPort where
  id := some port.id
  name := port.name
  direction := port.direction
  data_type := some port.dataType
  cardinality := some port.cardinality
  label := some port.label.join

def portFromIR (port : IRPort) : PortModel where
  id := port.id.getD ""
  name := port.name
  direction := port.direction
  dataType := port.data_type.getD "any"
  cardinality := port.cardinality.getD .ONE
  label := some port.label.join

def nodeToIR (node : NodeModel Sub) : IRNode Sub where
  id := some node.id
  type := node.type
  label := node.label.map some
  paradigm := some node.paradigm
  params := some (node.params.map paramToIR)
  ports := some (node.ports.map portToIR)
  position := some { x := some node.position.x, y := some node.position.y }
  group_id := some node.groupId.join
  subgraph := node.subgraph

def nodeFromIR (node : IRNode Sub) : NodeModel Sub where
  id := node.id.getD ""
  type := node.type
  label := node.label.join
  paradigm := node.paradigm.getD .FUNCTIONAL
  params := (node.params.getD []).map paramFromIR
  ports := (node.ports.getD []).map portFromIR
  position := (node.position.getD {}).filled
  groupId := some node.group_id.join
  subgraph := node.subgraph

def edgeToIR (edge : EdgeModel) : IREdge where
  id := some edge.id
  source := edge.source
  target := edge.target

def edgeFromIR (edge : IREdge) : EdgeModel where
  id := edge.id.getD ""
  source := edge.source
  target := edge.target

/-- `toIR`: a member of the model that is absent is absent from the document. -/
def toIR (model : CanvasModel Sub) : IRGraph Sub where
  schema_version := model.schemaVersion
  paradigm := some model.paradigm
  name := model.name.map some
  nodes := some (model.nodes.mapValues fun _ node => nodeToIR node)
  edges := some (model.edges.mapValues fun _ edge => edgeToIR edge)
  params := model.params.map fun params => params.mapValues fun _ param => paramToIR param

def GROUP_COLORS : List String :=
  ["#6366f1", "#8b5cf6", "#ec4899", "#f43f5e", "#f97316", "#eab308", "#22c55e", "#06b6d4",
    "#3b82f6", "#a855f7"]

/-- `GROUP_COLORS[i % GROUP_COLORS.length]`. -/
def group_color (i : Nat) : String := GROUP_COLORS.getD (i % GROUP_COLORS.length) ""

/-- The label, color and corner of a group at these positions. -/
def GroupMeta.of (label : String) (i : Nat) (positions : List Position) : GroupMeta where
  label := label
  color := group_color i
  position := {
    x := (positions.map (·.x)).min?.map (· - 16)
    y := (positions.map (·.y)).min?.map (· - 28) }

def addGroupMember (members : Dict String (List String)) (node : IRNode Sub) :
    Dict String (List String) :=
  match node.group_id.join with
  | none => members
  | some gid =>
      if gid = "" then members
      else members.set gid ((members.get? gid).getD [] ++ [node.id.getD ""])

/-- The ids of the nodes that name each group, groups in the order they are met. -/
def groupMemberIds (graph : IRGraph Sub) : Dict String (List String) :=
  (graph.nodes.getD .empty).values.foldl addGroupMember .empty

/-- A group is shown if it has two members or more. -/
def addGroupMeta (nodes : Dict String (NodeModel Sub)) (groupMeta : Dict String GroupMeta)
    (group : String × List String) : Dict String GroupMeta :=
  let positions := group.2.filterMap fun id => (nodes.get? id).map (·.position)
  if group.2.length < 2 ∨ positions = [] then groupMeta
  else
    let groupIndex := groupMeta.keys.length
    groupMeta.set group.1 (.of ("Group " ++ toString (groupIndex + 1)) groupIndex positions)

def groupMetaFromIR (graph : IRGraph Sub) (nodes : Dict String (NodeModel Sub)) :
    Dict String GroupMeta :=
  (groupMemberIds graph).entries.foldl (addGroupMeta nodes) .empty

/-- `fromIR`. -/
def fromIR (graph : IRGraph Sub) : CanvasModel Sub :=
  let nodes := (graph.nodes.getD .empty).mapValues fun _ node => nodeFromIR node
  let groupMeta := groupMetaFromIR graph nodes
  { schemaVersion := graph.schema_version
    name := graph.name.join
    paradigm := graph.paradigm.getD .FUNCTIONAL
    nodes
    edges := (graph.edges.getD .empty).mapValues fun _ edge => edgeFromIR edge
    groupMeta := if groupMeta.keys = [] then none else some groupMeta
    params := graph.params.map fun params => params.mapValues fun _ param => paramFromIR param }

end EmergentFlow.Canvas
