import EmergentFlow.Lib.Buckets
import EmergentFlow.Lib.Layers
import EmergentFlow.Ui.Separate

/-!
# Ui — Layered

The layered layouts of the canvas (`layeredLayout` and `expandLayout` of
`ui/src/canvas/layout.ts`). Nodes are put into columns by their layer and into rows in
the order they come, which keeps them apart (`apart_place`). Then the members
of every group are packed around the middle of where they were put.

The second pass does not look at what is there: `Clear` says of the places before it
that it packs no group onto a node outside it.
-/

namespace EmergentFlow.Layout

open Canvas

variable {Sub : Type}

def COLUMN_WIDTH : Rat := 260
def ROW_HEIGHT : Rat := 140
def GROUP_NODE_TYPE : String := "layout.group"
def GROUP_MEMBER_COLUMNS : Nat := 2
def GROUP_MEMBER_COLUMN_WIDTH : Rat := 220
def GROUP_MEMBER_ROW_HEIGHT : Rat := 100
def GROUP_PADDING : Rat := 40
def NODE_BASE_HEIGHT : Rat := 64
def NODE_PORT_ROW : Rat := 26
def NODE_FOOTPRINT_WIDTH : Rat := 200
def EXPANDED_COLUMN_PADDING : Rat := 120
def EXPANDED_ROW_PADDING : Rat := 96
def EXPANDED_COLUMN_MIN : Rat := 200
def EXPANDED_ROW_MIN : Rat := 80

/-! ## Layers -/

/-- One edge of a pass, and whether a layer has changed in it. -/
def relaxEdge (st : Dict String Nat × Bool) (edge : EdgeModel) : Dict String Nat × Bool :=
  match st.1.get? edge.source.node_id, st.1.get? edge.target.node_id with
  | some src, some dst =>
      if dst < src + 1 then (st.1.set edge.target.node_id (src + 1), true) else st
  | _, _ => st

def relaxLayers (edges : List EdgeModel) : Nat → Dict String Nat → Dict String Nat
  | 0, layer => layer
  | n + 1, layer =>
      let st := edges.foldl relaxEdge (layer, false)
      if st.2 then relaxLayers edges n st.1 else st.1

def layersOf (nodes : Dict String (NodeModel Sub)) (edges : Dict String EdgeModel) :
    Dict String Nat :=
  relaxLayers edges.values nodes.keys.length (nodes.mapValues fun _ _ => 0)

def layerAt (layer : Dict String Nat) (id : String) : Nat := (layer.get? id).getD 0

/-! ## Columns and rows -/

/-- What the columns and rows are counted in. -/
structure Grid (κ : Type) where
  start : κ
  next : Nat → κ → κ
  spot : Nat → κ → Position

def counterAt {κ : Type} (grid : Grid κ) (counters : Dict Nat κ) (l : Nat) : κ :=
  (counters.get? l).getD grid.start

/-- One node, at the counter of its layer. -/
def placeNode {κ : Type} (grid : Grid κ) (layer : Dict String Nat)
    (st : Dict Nat κ × Dict String (NodeModel Sub)) (entry : String × NodeModel Sub) :
    Dict Nat κ × Dict String (NodeModel Sub) :=
  let l := layerAt layer entry.1
  let counter := counterAt grid st.1 l
  (st.1.set l (grid.next l counter),
    st.2.set entry.1 { entry.2 with position := grid.spot l counter })

def place {κ : Type} (grid : Grid κ) (layer : Dict String Nat)
    (nodes : Dict String (NodeModel Sub)) : Dict String (NodeModel Sub) :=
  (nodes.entries.foldl (placeNode grid layer) (.empty, .empty)).2

/-- Rows by number. -/
def layeredGrid : Grid Nat where
  start := 0
  next _ row := row + 1
  spot l row := { x := l * COLUMN_WIDTH, y := row * ROW_HEIGHT }

structure Footprint where
  width : Rat
  height : Rat

def nodeFootprint (node : NodeModel Sub) : Footprint :=
  let portCount := max (node.ports.countP (·.direction = .IN)) (node.ports.countP (·.direction = .OUT))
  { width := NODE_FOOTPRINT_WIDTH, height := NODE_BASE_HEIGHT + portCount * NODE_PORT_ROW }

def columnPitch (nodes : Dict String (NodeModel Sub)) : Rat :=
  let maxWidth := (nodes.values.map fun node => (nodeFootprint node).width).foldl max
    EXPANDED_COLUMN_MIN
  maxWidth + EXPANDED_COLUMN_PADDING

def raiseLayer (layer : Dict String Nat) (heights : Dict Nat Rat)
    (entry : String × NodeModel Sub) : Dict Nat Rat :=
  let l := layerAt layer entry.1
  heights.set l (max ((heights.get? l).getD 0) (nodeFootprint entry.2).height)

def rowPitch (layer : Dict String Nat) (nodes : Dict String (NodeModel Sub)) : Dict Nat Rat :=
  (nodes.entries.foldl (raiseLayer layer) .empty).mapValues fun _ height =>
    max (height + EXPANDED_ROW_PADDING) (EXPANDED_ROW_MIN + EXPANDED_ROW_PADDING)

/-- Rows as far down as the layer has been filled. -/
def expandGrid (layer : Dict String Nat) (nodes : Dict String (NodeModel Sub)) : Grid Rat where
  start := 0
  next l y := y + ((rowPitch layer nodes).get? l).getD 0
  spot l y := { x := l * columnPitch nodes, y }

/-! ## Groups -/

/-- The group that a node names, if it does. -/
def groupOf (node : NodeModel Sub) : Option String :=
  match node.groupId.join with
  | none => none
  | some groupId => if groupId = "" then none else some groupId

def membersByGroup (nodes : Dict String (NodeModel Sub)) : Dict String (List String) :=
  Buckets.collect Prod.fst Prod.snd
    (nodes.entries.filterMap fun entry => (groupOf entry.2).map (·, entry.1))

/-- The sum over the number: `reduce` and the division. -/
def centroid (result : Dict String (NodeModel Sub)) (memberIds : List String) : Position :=
  let positions := memberIds.filterMap fun id => (result.get? id).map (·.position)
  { x := (positions.map (·.x)).sum / memberIds.length
    y := (positions.map (·.y)).sum / memberIds.length }

/-- The place of a member in the cluster of its group. -/
def cell (corner : Position) (index : Nat) : Position where
  x := corner.x + (index % GROUP_MEMBER_COLUMNS : Nat) * GROUP_MEMBER_COLUMN_WIDTH
  y := corner.y + (index / GROUP_MEMBER_COLUMNS : Nat) * GROUP_MEMBER_ROW_HEIGHT

def packMember (corner : Position) (result : Dict String (NodeModel Sub)) (member : String × Nat) :
    Dict String (NodeModel Sub) :=
  result.modify member.1 fun node => { node with position := cell corner member.2 }

def packGroup (result : Dict String (NodeModel Sub)) (group : String × List String) :
    Dict String (NodeModel Sub) :=
  match result.get? group.1 with
  | none => result
  | some groupNode =>
      -- only a group node packs its members
      if groupNode.type ≠ GROUP_NODE_TYPE then result
      else
        let corner := centroid result group.2
        let packed := group.2.zipIdx.foldl (packMember corner) result
        packed.set group.1
          { groupNode with
            position := { x := corner.x - GROUP_PADDING, y := corner.y - GROUP_PADDING } }

def packGroups (nodes result : Dict String (NodeModel Sub)) : Dict String (NodeModel Sub) :=
  (membersByGroup nodes).entries.foldl packGroup result

/-! ## The layouts -/

def layeredLayout (nodes : Dict String (NodeModel Sub)) (edges : Dict String EdgeModel) :
    Dict String (NodeModel Sub) :=
  packGroups nodes (place layeredGrid (layersOf nodes edges) nodes)

def expandLayout (nodes : Dict String (NodeModel Sub)) (edges : Dict String EdgeModel) :
    Dict String (NodeModel Sub) :=
  let layer := layersOf nodes edges
  packGroups nodes (place (expandGrid layer nodes) layer nodes)

end EmergentFlow.Layout
