import Mathlib.Data.List.Sort
import Mathlib.Data.List.Lex
import EmergentFlow.Ui.CanvasModel

/-!
# Ui — GraphStore

The store of the canvas (`ui/src/store/graphStore.ts`): the model, the versions
that undo and redo lead to, and the actions. Every action pushes the version it
finds before it changes the model; a drag pushes one version for all its moves.

A `Host` is what the store calls: where the layouts put a node, the text of the
blocks of a card, the catalog, and the graph that a composite carries. Ids that
an action mints are handed to it.
-/

namespace EmergentFlow.Canvas

variable {Sub : Type}

/-! ## The store -/

structure GraphStore (Sub : Type) extends CanvasModel Sub where
  past : List (CanvasModel Sub) := []
  future : List (CanvasModel Sub) := []
  lastTxn : Option String := none

def emptyGraph : CanvasModel Sub where
  paradigm := .FUNCTIONAL
  nodes := .empty
  edges := .empty
  groupMeta := some .empty

def GraphStore.new : GraphStore Sub := { emptyGraph with }

def HISTORY_LIMIT : Nat := 100

def PASTE_OFFSET : Rat := 40

/-- `snapshot`. -/
def snapshot (model : CanvasModel Sub) : CanvasModel Sub :=
  { model with groupMeta := some (model.groupMeta.getD .empty) }

/-- What `Math.min` and `Math.max` give of some numbers. -/
def min_of (xs : List Rat) : Rat := xs.min?.getD 0

def max_of (xs : List Rat) : Rat := xs.max?.getD 0

/-- A number as the value of a param. -/
def js_number (q : Rat) : ParamValue := if q.den = 1 then .int q.num else .float q

/-- Strings compare by their UTF-16 code units. -/
def utf16 (s : String) : List Nat :=
  s.toList.flatMap fun c =>
    if c.toNat < 0x10000 then [c.toNat]
    else [0xD800 + (c.toNat - 0x10000) / 0x400, 0xDC00 + (c.toNat - 0x10000) % 0x400]

/-- The key of a port in the lookups of an extraction. -/
def EndModel.key (e : EndModel) : String := e.node_id ++ ":" ++ e.port_id.getD "undefined"

/-- A param that is made with its default. -/
def text_param (name value : String) : ParamModel where
  name := name
  typeToken := "str"
  value := .str value
  default := some (.str value)

/-! ## What the store calls -/

structure CatalogPort where
  name : String
  direction : Direction
  data_type : Option String := none
  cardinality : Option Cardinality := none
  label : Nullable String := none

structure CatalogParam where
  name : String
  type_token : String
  default : Option ParamValue := none

structure CatalogNode where
  type : String
  label : String
  paradigm : String
  ports : List CatalogPort
  params : List CatalogParam

inductive ResultCardBlock where
  | markdown (text : String)
  | result (source caption : String)

structure Host (Sub : Type) where
  /-- where `layeredLayout` and `expandLayout` put a node -/
  layered : Dict String (NodeModel Sub) → Dict String EdgeModel → String → Position
  expanded : Dict String (NodeModel Sub) → Dict String EdgeModel → String → Position
  /-- where `separateOverlappingNodes` puts a node -/
  separated : Dict String (NodeModel Sub) → String → Position
  inner : IRGraph Sub → Sub
  catalog : List CatalogNode
  serializeBlocks : List ResultCardBlock → String

/-- The nodes, each put somewhere. -/
def placed (nodes : Dict String (NodeModel Sub)) (where_ : String → Position) :
    Dict String (NodeModel Sub) :=
  nodes.mapValues fun id node => { node with position := where_ id }

def Host.layeredLayout (host : Host Sub) (nodes : Dict String (NodeModel Sub))
    (edges : Dict String EdgeModel) : Dict String (NodeModel Sub) :=
  placed nodes (host.layered nodes edges)

def Host.expandLayout (host : Host Sub) (nodes : Dict String (NodeModel Sub))
    (edges : Dict String EdgeModel) : Dict String (NodeModel Sub) :=
  placed nodes (host.expanded nodes edges)

def Host.separateOverlappingNodes (host : Host Sub) (nodes : Dict String (NodeModel Sub)) :
    Dict String (NodeModel Sub) :=
  placed nodes (host.separated nodes)

/-! ## History -/

namespace GraphStore

variable (s : GraphStore Sub)

/-- `pushHistory`. -/
def pushHistory (txn : String) : GraphStore Sub :=
  let past := s.past ++ [snapshot s.toCanvasModel]
  { s with
    past := if past.length > HISTORY_LIMIT then past.tail else past
    future := []
    lastTxn := some txn }

/-- `set` of members of the model. -/
def setModel (f : CanvasModel Sub → CanvasModel Sub) : GraphStore Sub :=
  { s with toCanvasModel := f s.toCanvasModel }

/-- `undo`. -/
def undo : GraphStore Sub :=
  match s.past.getLast? with
  | none => s
  | some prev => {
      toCanvasModel := prev
      past := s.past.dropLast
      future := s.future ++ [snapshot s.toCanvasModel] }

/-- `redo`. -/
def redo : GraphStore Sub :=
  match s.future.getLast? with
  | none => s
  | some next => {
      toCanvasModel := next
      past := s.past ++ [snapshot s.toCanvasModel]
      future := s.future.dropLast }

/-- `endNodeDrag`. -/
def endNodeDrag : GraphStore Sub := { s with lastTxn := none }

/-- `reset`. The name and the schema version stay. -/
def reset : GraphStore Sub :=
  { emptyGraph with name := s.name, schemaVersion := s.schemaVersion }

/-! ## Nodes and edges -/

def nodeFromSpec (spec : CatalogNode) (position : Position) (nodeId : String)
    (portIds : Nat → String) : NodeModel Sub where
  id := nodeId
  type := spec.type
  label := some spec.label
  paradigm := if spec.paradigm = "declarative" then .DECLARATIVE else .FUNCTIONAL
  params := spec.params.map fun param => {
    name := param.name
    typeToken := param.type_token
    value := param.default.getD .none
    default := some (param.default.getD .none) }
  ports := spec.ports.mapIdx fun i port => {
    id := portIds i
    name := port.name
    direction := port.direction
    dataType := port.data_type.getD "any"
    cardinality := port.cardinality.getD .ONE
    label := some port.label.join }
  position := position
  groupId := some none

/-- `addNodeFromSpec`. -/
def addNodeFromSpec (host : Host Sub) (spec : CatalogNode) (position : Position)
    (nodeId : String) (portIds : Nat → String) : GraphStore Sub :=
  (s.pushHistory "addNodeFromSpec").setModel fun m => { m with
    nodes := host.layeredLayout
      (m.nodes.set nodeId (nodeFromSpec spec position nodeId portIds)) m.edges }

/-- A node that names the group names none. -/
def release (gone : String → Bool) (node : NodeModel Sub) : NodeModel Sub :=
  if node.groupId.join.any gone then { node with groupId := some none } else node

/-- `removeNode`. -/
def removeNode (nodeId : String) : GraphStore Sub :=
  if (s.nodes.get? nodeId).isNone then s
  else (s.pushHistory "removeNode").setModel fun m => { m with
    nodes := (m.nodes.erase nodeId).mapValues fun _ node => release (· = nodeId) node
    edges := m.edges.filter fun _ edge =>
      edge.source.node_id ≠ nodeId ∧ edge.target.node_id ≠ nodeId }

/-- `moveNode`. -/
def moveNode (nodeId : String) (position : Position) : GraphStore Sub :=
  if (s.nodes.get? nodeId).isNone then s
  else
    let txn := "move:" ++ nodeId
    let s := if s.lastTxn = some txn then s else s.pushHistory txn
    s.setModel fun m => { m with nodes := m.nodes.modify nodeId ({ · with position }) }

/-- `setParam`. -/
def setParam (nodeId paramName : String) (value : ParamValue) : GraphStore Sub :=
  if (s.nodes.get? nodeId).isNone then s
  else (s.pushHistory "setParam").setModel fun m => { m with
    nodes := m.nodes.modify nodeId fun node => { node with
      params := node.params.map fun p => if p.name = paramName then { p with value } else p } }

/-- `setParamRef`. -/
def setParamRef (nodeId paramName : String) (ref : Nullable String) : GraphStore Sub :=
  if (s.nodes.get? nodeId).isNone then s
  else (s.pushHistory "setParamRef").setModel fun m => { m with
    nodes := m.nodes.modify nodeId fun node => { node with
      params := node.params.map fun p => if p.name = paramName then { p with ref } else p } }

/-- `connect`, with what it returns. -/
def connect (host : Host Sub) (source target : EndModel) (edgeId : String) :
    GraphStore Sub × Option String :=
  if s.edges.values.any fun edge => edge.source = source ∧ edge.target = target then (s, none)
  else
    ((s.pushHistory "connect").setModel fun m =>
      let edges := m.edges.set edgeId { id := edgeId, source, target }
      { m with edges, nodes := host.layeredLayout m.nodes edges }, some edgeId)

/-- `pasteNodes`. -/
def pasteNodes (host : Host Sub) (models : List (NodeModel Sub)) (nodeIds : Nat → String)
    (portIds : Nat → Nat → String) : GraphStore Sub :=
  if models = [] then s
  else
    let cloned := models.mapIdx fun i original => { original with
      id := nodeIds i
      ports := original.ports.mapIdx fun j port => { port with id := portIds i j }
      position := {
        x := original.position.x + PASTE_OFFSET, y := original.position.y + PASTE_OFFSET } }
    (s.pushHistory "pasteNodes").setModel fun m => { m with
      nodes := host.separateOverlappingNodes
        (cloned.foldl (fun nodes node => nodes.set node.id node) m.nodes) }

/-- `removeEdge`. -/
def removeEdge (edgeId : String) : GraphStore Sub :=
  if (s.edges.get? edgeId).isNone then s
  else (s.pushHistory "removeEdge").setModel fun m => { m with edges := m.edges.erase edgeId }

/-! ## Groups, callouts and cards -/

/-- The nodes of a selection that are there. -/
def selected (nodeIds : List String) : List String :=
  nodeIds.filter fun id => (s.nodes.get? id).isSome

def members (nodeIds : List String) : List (NodeModel Sub) := nodeIds.filterMap (s.nodes.get? ·)

/-- A node of the canvas that no spec describes. -/
def layoutNode (id type label : String) (params : List ParamModel) (position : Position) :
    NodeModel Sub where
  id := id
  type := type
  label := some label
  paradigm := .FUNCTIONAL
  params := params
  ports := []
  position := position
  groupId := some none

/-- The corner of a rectangle around the positions. -/
def corner (padding : Rat) (positions : List Position) : Position where
  x := min_of (positions.map (·.x)) - padding
  y := min_of (positions.map (·.y)) - padding

/-- Every node of the selection with the group. -/
def joinGroup (nodes : Dict String (NodeModel Sub)) (ids : List String) (groupId : String) :
    Dict String (NodeModel Sub) :=
  ids.foldl (fun nodes id => nodes.modify id ({ · with groupId := some (some groupId) })) nodes

/-- `groupSelection`. -/
def groupSelection (nodeIds : List String) (groupId : String) : GraphStore Sub :=
  let ids := s.selected nodeIds
  if ids.length < 2 then s
  else
    let groupNode := layoutNode groupId "layout.group" "Group"
      [text_param "label" "Group", text_param "color" "slate"]
      (corner 40 ((s.members ids).map (·.position)))
    (s.pushHistory "groupSelection").setModel fun m => { m with
      nodes := joinGroup (m.nodes.set groupId groupNode) ids groupId }

structure Bounds where
  x : Rat
  y : Rat
  width : Rat
  height : Rat

def NODE_FOOTPRINT_WIDTH : Rat := 200

def NODE_FOOTPRINT_HEIGHT : Rat := 100

def GROUP_PADDING : Rat := 40

/-- `computeGroupBounds`. -/
def computeGroupBounds (members : List (NodeModel Sub)) : Bounds :=
  let xs := members.map (·.position.x)
  let ys := members.map (·.position.y)
  if members = [] then ⟨0, 0, 240, 160⟩
  else {
    x := min_of xs - GROUP_PADDING
    y := min_of ys - GROUP_PADDING
    width := max 240 (max_of (xs.map (· + NODE_FOOTPRINT_WIDTH)) - min_of xs + GROUP_PADDING * 2)
    height := max 160
      (max_of (ys.map (· + NODE_FOOTPRINT_HEIGHT)) - min_of ys + GROUP_PADDING * 2) }

/-- The nodes whose group is this one. -/
def membersOf (groupId : String) : List (NodeModel Sub) :=
  s.nodes.values.filter fun node => node.groupId = some (some groupId)

/-- A group is as large as its members make it. -/
def effectiveBounds (node : NodeModel Sub) : Bounds :=
  if node.type = "layout.group" ∧ s.membersOf node.id ≠ [] then
    computeGroupBounds (s.membersOf node.id)
  else ⟨node.position.x, node.position.y, NODE_FOOTPRINT_WIDTH, NODE_FOOTPRINT_HEIGHT⟩

/-- `addCalloutAroundSelection`. -/
def addCalloutAroundSelection (nodeIds : List String) (calloutId : String) : GraphStore Sub :=
  let ids := s.selected nodeIds
  if ids.length < 2 then s
  else
    let bounds := (s.members ids).map s.effectiveBounds
    let minX := min_of (bounds.map (·.x))
    let minY := min_of (bounds.map (·.y))
    let maxX := max_of (bounds.map fun b => b.x + b.width)
    let maxY := max_of (bounds.map fun b => b.y + b.height)
    let size (name : String) (least extent : Rat) : ParamModel := {
      name, typeToken := "int", value := js_number (max least (extent + GROUP_PADDING * 2))
      default := some (js_number least) }
    let calloutNode := layoutNode calloutId "layout.callout" "Callout"
      [text_param "label" "Callout", text_param "color" "blue", size "width" 400 (maxX - minX),
        size "height" 300 (maxY - minY)]
      { x := minX - GROUP_PADDING, y := minY - GROUP_PADDING }
    (s.pushHistory "addCallout").setModel fun m => { m with
      nodes := m.nodes.set calloutId calloutNode }

/-- The nodes whose results a card can show. -/
def cardNodes (nodeIds : List String) : List (NodeModel Sub) :=
  (s.members nodeIds).filter fun node =>
    !"layout.".toList.isPrefixOf node.type.toList ∧ node.type ≠ "notes.markdown" ∧
      node.type ≠ "reports.result_card"

/-- From top to bottom, and from left to right. -/
def reading_order (nodes : List (NodeModel Sub)) : List (NodeModel Sub) :=
  nodes.insertionSort fun a b => a.position.y < b.position.y ∨
    a.position.y = b.position.y ∧ a.position.x ≤ b.position.x

/-- One output connected to the card, and the block for it. -/
def connectOutput (host : Host Sub) (card : EndModel)
    (acc : GraphStore Sub × List ResultCardBlock) (out : (NodeModel Sub × PortModel) × String) :
    GraphStore Sub × List ResultCardBlock :=
  let ((node, port), edgeId) := out
  let connected := acc.1.connect host ⟨node.id, some port.id⟩ card edgeId
  match connected.2 with
  | none => (connected.1, acc.2)
  | some _ => (connected.1, acc.2 ++ [.result (node.id ++ ":" ++ port.name)
      (node.label.getD node.type ++ "." ++ port.name)])

/-- The outputs a card shows: the first three of each node. -/
def cardOutputs (nodes : List (NodeModel Sub)) (edgeIds : Nat → String) :
    List ((NodeModel Sub × PortModel) × String) :=
  let outputs := (reading_order nodes).flatMap fun node =>
    ((node.ports.filter (·.direction = .OUT)).take 3).map (node, ·)
  outputs.mapIdx fun i output => (output, edgeIds i)

/-- The steps of `createResultCardForSelection`, each with its own history. -/
def buildResultCard (host : Host Sub) (spec : CatalogNode) (nodes : List (NodeModel Sub))
    (cardId : String) (portIds edgeIds : Nat → String) : GraphStore Sub :=
  let position : Position := {
    x := max_of (nodes.map (·.position.x + NODE_FOOTPRINT_WIDTH)) + 80
    y := min_of (nodes.map (·.position.y)) }
  let added := s.addNodeFromSpec host spec position cardId portIds
  let titled := added.setParam cardId "title" (.str "Summary")
  let inPort := (titled.nodes.get? cardId).bind fun card =>
    card.ports.find? (·.direction = .IN)
  let filled := match inPort with
    | none => (titled, [])
    | some port => (cardOutputs nodes edgeIds).foldl
        (connectOutput host ⟨cardId, some port.id⟩) (titled, [])
  filled.1.setParam cardId "blocks_json" (.str (host.serializeBlocks
    (.markdown "## Summary\n\nDescribe what these results show." :: filled.2)))

/-- `createResultCardForSelection`: the steps, with the history of one. -/
def createResultCardForSelection (host : Host Sub) (nodeIds : List String) (cardId : String)
    (portIds edgeIds : Nat → String) : GraphStore Sub :=
  let nodes := s.cardNodes nodeIds
  match host.catalog.find? (·.type = "reports.result_card") with
  | none => s
  | some spec =>
      if nodes = [] then s
      else
        -- one entry of the history for all the steps of the card
        let past := s.past ++ [snapshot s.toCanvasModel]
        { s.buildResultCard host spec nodes cardId portIds edgeIds with
          past := if past.length > HISTORY_LIMIT then past.tail else past
          future := []
          lastTxn := none }

/-- The groups a selection names. -/
def selectedGroups (nodeIds : List String) : List String :=
  (s.members nodeIds).filterMap fun node =>
    if node.type = "layout.group" then some node.id
    else node.groupId.join.filter (· ≠ "")

/-- `ungroupSelection`. -/
def ungroupSelection (nodeIds : List String) : GraphStore Sub :=
  let groupIds := s.selectedGroups nodeIds
  if groupIds = [] then s
  else (s.pushHistory "ungroupSelection").setModel fun m => { m with
    nodes := (m.nodes.mapValues fun _ node =>
      release (fun gid => gid ≠ "" ∧ gid ∈ groupIds) node).filter fun id _ => id ∉ groupIds }

/-- The nodes with the group at a position, its members moved along. -/
def movedGroup (groupId : String) (position : Position) : Dict String (NodeModel Sub) :=
  let bounds := computeGroupBounds (s.membersOf groupId)
  let moved := (s.membersOf groupId).foldl (fun nodes member => nodes.set member.id { member with
    position := {
      x := member.position.x + (position.x - bounds.x)
      y := member.position.y + (position.y - bounds.y) } }) s.nodes
  match s.nodes.get? groupId with
  | none => moved
  | some group => moved.set groupId { group with position }

/-- `moveGroup`. -/
def moveGroup (groupId : String) (position : Position) : GraphStore Sub :=
  if (s.nodes.get? groupId).isNone then s
  else
    let txn := "move-group:" ++ groupId
    let s := if s.lastTxn = some txn then s else s.pushHistory txn
    { s with nodes := s.movedGroup groupId position, lastTxn := some txn }

/-! ## Extraction -/

/-- A selection as the inside of a composite. -/
structure Extraction where
  internalEdges : List EdgeModel
  crossingEdges : List EdgeModel
  danglingIn : List (EndModel × PortModel)
  exposedOut : List (EndModel × PortModel)

/-- The ports of the selection in canonical order. -/
def selectionPorts (ids : List String) : List (EndModel × PortModel) :=
  (ids.insertionSort fun a b => utf16 a ≤ utf16 b).flatMap fun nodeId =>
    ((s.nodes.get? nodeId).elim [] (·.ports)).map fun port => (⟨nodeId, some port.id⟩, port)

def extraction (ids : List String) : Extraction :=
  let inside := fun (e : EndModel) => e.node_id ∈ ids
  let internalEdges := s.edges.values.filter fun edge => inside edge.source ∧ inside edge.target
  let boundTargets := internalEdges.map fun edge => edge.target.key
  let consumedSources := internalEdges.map fun edge => edge.source.key
  let ports := s.selectionPorts ids
  { internalEdges
    crossingEdges := s.edges.values.filter fun edge =>
      (inside edge.source ∨ inside edge.target) ∧ ¬ (inside edge.source ∧ inside edge.target)
    danglingIn := ports.filter fun p => p.2.direction = .IN ∧ p.1.key ∉ boundTargets
    exposedOut := ports.filter fun p => p.2.direction = .OUT ∧ p.1.key ∉ consumedSources }

/-- The ports of one side of the composite. -/
def boundaryPorts (side : String) (direction : Direction) (ports : List (EndModel × PortModel))
    (portIds : Nat → String) : List PortModel :=
  ports.mapIdx fun i p => {
    id := portIds i
    name := side ++ toString i
    direction
    dataType := p.2.dataType
    cardinality := p.2.cardinality
    label := some none }

/-- The port of the composite that stands for each port of one side. -/
def boundaryByMember (ports : List (EndModel × PortModel)) (portIds : Nat → String) :
    Dict String String :=
  .ofList (ports.mapIdx fun i p => (p.1.key, portIds i))

/-- `extractToComposite`. -/
def extractToComposite (host : Host Sub) (nodeIds : List String) (compositeId : String)
    (inPortIds outPortIds : Nat → String) : GraphStore Sub :=
  let ids := s.selected nodeIds
  if ids.length < 2 then s
  else
    let x := s.extraction ids
    let boundaryIn := boundaryByMember x.danglingIn inPortIds
    let boundaryOut := boundaryByMember x.exposedOut outPortIds
    let subgraph : IRGraph Sub := {
      paradigm := some .FUNCTIONAL
      nodes := some (.ofList (ids.filterMap fun id => (s.nodes.get? id).map fun node =>
        (id, nodeToIR { node with groupId := some none })))
      edges := some (.ofList (x.internalEdges.map fun edge => (edge.id, edgeToIR edge))) }
    let childless : NodeModel Sub := layoutNode compositeId "layout.composite" "Composite"
      [text_param "label" "Composite"] (corner 40 ((s.members ids).map (·.position)))
    let compositeNode : NodeModel Sub := { childless with
      ports := boundaryPorts "in" .IN x.danglingIn inPortIds ++
        boundaryPorts "out" .OUT x.exposedOut outPortIds
      subgraph := some (some (host.inner subgraph)) }
    -- an edge that crosses the border ends at a port of the composite
    let rewired (edge : EdgeModel) : EdgeModel :=
      if edge.source.node_id ∈ ids then
        { edge with source := ⟨compositeId, boundaryOut.get? edge.source.key⟩ }
      else { edge with target := ⟨compositeId, boundaryIn.get? edge.target.key⟩ }
    (s.pushHistory "extractToComposite").setModel fun m => { m with
      nodes := (m.nodes.filter fun id _ => id ∉ ids).set compositeId compositeNode
      edges := x.crossingEdges.foldl (fun edges edge => edges.set edge.id (rewired edge))
        (x.internalEdges.foldl (fun edges edge => edges.erase edge.id) m.edges) }

/-! ## The whole model -/

/-- The members that `set` is given over those of the state. A member that the
mapper leaves out stays, but for the params. -/
def loadIR (host : Host Sub) (graph : IRGraph Sub) (reflow : Bool) : GraphStore Sub :=
  let model := fromIR graph
  (s.pushHistory "loadIR").setModel fun m => {
    schemaVersion := model.schemaVersion.or m.schemaVersion
    name := model.name.or m.name
    paradigm := model.paradigm
    nodes := if reflow then host.layeredLayout model.nodes model.edges
      else host.separateOverlappingNodes model.nodes
    edges := model.edges
    groupMeta := model.groupMeta.or m.groupMeta
    params := model.params }

/-- `loadModel`. -/
def loadModel (host : Host Sub) (model : CanvasModel Sub) (reflow : Bool) : GraphStore Sub :=
  (s.pushHistory "loadModel").setModel fun _ => { model with
    nodes := if reflow then host.layeredLayout model.nodes model.edges else model.nodes
    groupMeta := some (model.groupMeta.getD .empty) }

/-- `tidyLayout`. -/
def tidyLayout (host : Host Sub) : GraphStore Sub :=
  (s.pushHistory "tidyLayout").setModel fun m => { m with
    nodes := host.layeredLayout m.nodes m.edges }

/-- `expandLayout`. -/
def expandLayout (host : Host Sub) : GraphStore Sub :=
  (s.pushHistory "expandLayout").setModel fun m => { m with
    nodes := host.expandLayout m.nodes m.edges }

/-- `setName`. -/
def setName (name : String) : GraphStore Sub :=
  (s.pushHistory "setName").setModel fun m => { m with name := some name }

/-! ## Params of the flow -/

/-- The first of `param1`, `param2`, … that is not taken. -/
def freshParamName (existing : List String) : String :=
  let names := (List.range' 1 (existing.length + 1)).map fun n => "param" ++ toString n
  (names.find? (· ∉ existing)).getD "param1"

/-- `addGraphParam`. -/
def addGraphParam : GraphStore Sub :=
  (s.pushHistory "addGraphParam").setModel fun m =>
    let params := m.params.getD .empty
    let name := freshParamName params.keys
    { m with params := some (params.set name {
        name, typeToken := "str", value := .none, description := some (some "") }) }

/-- The setters of a param: nothing happens to one that is not there. -/
def updateGraphParam (txn name : String) (f : ParamModel → ParamModel) : GraphStore Sub :=
  match (s.params.getD .empty).get? name with
  | none => s
  | some existing => (s.pushHistory txn).setModel fun m => { m with
      params := some ((m.params.getD .empty).set name (f existing)) }

def setGraphParamValue (name : String) (value : ParamValue) : GraphStore Sub :=
  s.updateGraphParam "setGraphParamValue" name ({ · with value })

def setGraphParamType (name typeToken : String) : GraphStore Sub :=
  s.updateGraphParam "setGraphParamType" name ({ · with typeToken })

def setGraphParamDescription (name description : String) : GraphStore Sub :=
  s.updateGraphParam "setGraphParamDescription" name
    ({ · with description := some (some description) })

/-- `removeGraphParam`. -/
def removeGraphParam (name : String) : GraphStore Sub :=
  if ((s.params.getD .empty).get? name).isNone then s
  else (s.pushHistory "removeGraphParam").setModel fun m => { m with
    params := some ((m.params.getD .empty).erase name) }

/-! ## Metadata of groups -/

/-- `groupNodes`. Of fewer than two nodes it raises, and nothing is set. -/
def groupNodes (nodeIds : List String) (groupName : Option String) (groupId : String) :
    GraphStore Sub :=
  if nodeIds.length < 2 then s
  else
    let groups := s.groupMeta.getD .empty
    let count := groups.keys.length
    let groupMeta := GroupMeta.of (groupName.getD ("Group " ++ toString (count + 1))) count
      ((s.members nodeIds).map (·.position))
    (s.pushHistory "groupNodes").setModel fun m => { m with
      nodes := joinGroup m.nodes nodeIds groupId
      groupMeta := some ((m.groupMeta.getD .empty).set groupId groupMeta) }

/-- `ungroupNodes`. -/
def ungroupNodes (groupId : String) : GraphStore Sub :=
  (s.pushHistory "ungroupNodes").setModel fun m => { m with
    nodes := m.nodes.mapValues fun _ node => release (· = groupId) node
    groupMeta := some ((m.groupMeta.getD .empty).erase groupId) }

/-- `Partial<GroupMeta>`. -/
structure GroupMetaPatch where
  label : Option String := none
  color : Option String := none
  position : Option GroupPosition := none

def GroupMetaPatch.apply (patch : GroupMetaPatch) (existing : GroupMeta) : GroupMeta where
  label := patch.label.getD existing.label
  color := patch.color.getD existing.color
  position := patch.position.getD existing.position

/-- `setGroupMeta`: a position alone is no version of its own. -/
def setGroupMeta (groupId : String) (patch : GroupMetaPatch) : GraphStore Sub :=
  let s := if patch.label.isSome ∨ patch.color.isSome then s.pushHistory "setGroupMeta" else s
  s.setModel fun m =>
    match (m.groupMeta.getD .empty).get? groupId with
    | none => m
    | some existing => { m with
        groupMeta := some ((m.groupMeta.getD .empty).set groupId (patch.apply existing)) }

end GraphStore

/-! ## Actions -/

/-- An action with what it is handed, the ids it mints included. -/
inductive Action (Sub : Type) where
  | pushHistory (txn : String)
  | addNodeFromSpec (spec : CatalogNode) (position : Position) (nodeId : String)
      (portIds : Nat → String)
  | removeNode (nodeId : String)
  | moveNode (nodeId : String) (position : Position)
  | endNodeDrag
  | setParam (nodeId paramName : String) (value : ParamValue)
  | setParamRef (nodeId paramName : String) (ref : Nullable String)
  | connect (source target : EndModel) (edgeId : String)
  | pasteNodes (models : List (NodeModel Sub)) (nodeIds : Nat → String)
      (portIds : Nat → Nat → String)
  | groupSelection (nodeIds : List String) (groupId : String)
  | addCalloutAroundSelection (nodeIds : List String) (calloutId : String)
  | createResultCardForSelection (nodeIds : List String) (cardId : String)
      (portIds edgeIds : Nat → String)
  | ungroupSelection (nodeIds : List String)
  | moveGroup (groupId : String) (position : Position)
  | extractToComposite (nodeIds : List String) (compositeId : String)
      (inPortIds outPortIds : Nat → String)
  | removeEdge (edgeId : String)
  | loadIR (graph : IRGraph Sub) (reflow : Bool)
  | loadModel (model : CanvasModel Sub) (reflow : Bool)
  | tidyLayout
  | expandLayout
  | reset
  | undo
  | redo
  | setName (name : String)
  | addGraphParam
  | setGraphParamValue (name : String) (value : ParamValue)
  | setGraphParamType (name typeToken : String)
  | setGraphParamDescription (name description : String)
  | removeGraphParam (name : String)
  | groupNodes (nodeIds : List String) (groupName : Option String) (groupId : String)
  | ungroupNodes (groupId : String)
  | setGroupMeta (groupId : String) (patch : GraphStore.GroupMetaPatch)

/-- The store after an action. -/
def act (host : Host Sub) (s : GraphStore Sub) : Action Sub → GraphStore Sub
  | .pushHistory txn => s.pushHistory txn
  | .addNodeFromSpec spec position nodeId portIds =>
      s.addNodeFromSpec host spec position nodeId portIds
  | .removeNode nodeId => s.removeNode nodeId
  | .moveNode nodeId position => s.moveNode nodeId position
  | .endNodeDrag => s.endNodeDrag
  | .setParam nodeId paramName value => s.setParam nodeId paramName value
  | .setParamRef nodeId paramName ref => s.setParamRef nodeId paramName ref
  | .connect source target edgeId => (s.connect host source target edgeId).1
  | .pasteNodes models nodeIds portIds => s.pasteNodes host models nodeIds portIds
  | .groupSelection nodeIds groupId => s.groupSelection nodeIds groupId
  | .addCalloutAroundSelection nodeIds calloutId => s.addCalloutAroundSelection nodeIds calloutId
  | .createResultCardForSelection nodeIds cardId portIds edgeIds =>
      s.createResultCardForSelection host nodeIds cardId portIds edgeIds
  | .ungroupSelection nodeIds => s.ungroupSelection nodeIds
  | .moveGroup groupId position => s.moveGroup groupId position
  | .extractToComposite nodeIds compositeId inPortIds outPortIds =>
      s.extractToComposite host nodeIds compositeId inPortIds outPortIds
  | .removeEdge edgeId => s.removeEdge edgeId
  | .loadIR graph reflow => s.loadIR host graph reflow
  | .loadModel model reflow => s.loadModel host model reflow
  | .tidyLayout => s.tidyLayout host
  | .expandLayout => s.expandLayout host
  | .reset => s.reset
  | .undo => s.undo
  | .redo => s.redo
  | .setName name => s.setName name
  | .addGraphParam => s.addGraphParam
  | .setGraphParamValue name value => s.setGraphParamValue name value
  | .setGraphParamType name typeToken => s.setGraphParamType name typeToken
  | .setGraphParamDescription name description => s.setGraphParamDescription name description
  | .removeGraphParam name => s.removeGraphParam name
  | .groupNodes nodeIds groupName groupId => s.groupNodes nodeIds groupName groupId
  | .ungroupNodes groupId => s.ungroupNodes groupId
  | .setGroupMeta groupId patch => s.setGroupMeta groupId patch

end EmergentFlow.Canvas
