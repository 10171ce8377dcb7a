import EmergentFlow.Ui.GraphStore
import EmergentFlow.Ui.Layered

/-!
# Ui — Nesting

What the canvas hands to React Flow (`ui/src/canvas/toReactFlow.ts`, put together in
`ui/src/canvas/Canvas.tsx`): the members of a group become children of its container, and
the members of a collapsed group are left out, with the edges that end at one of them
led to the container. How a node and an edge look is a parameter.

A container that is itself a member of a collapsed group is left out too, but the edges
of its members are still led to it. So what is said of an edge is said of `Anchored` ends:
those that are drawn, or whose own collapsed group is.
-/

namespace EmergentFlow.ReactFlow

open Canvas GraphStore Layout

variable {Sub Look : Type}

/-! ## Nodes and edges of React Flow -/

structure RFStyle where
  width : Option Rat := none
  height : Option Rat := none
  zIndex : Option Int := none
  deriving DecidableEq

structure RFNode (Look : Type) where
  id : String
  position : Position
  look : Look
  style : Option RFStyle := none
  zIndex : Option Int := none
  parentId : Option String := none
  extent : Option String := none

structure RFEdge (Look : Type) where
  id : String
  source : String
  sourceHandle : Option String
  target : String
  targetHandle : Option String
  look : Look

def CALLOUT_NODE_TYPE : String := "layout.callout"
def GROUP_IN_HANDLE : String := "group-in"
def GROUP_OUT_HANDLE : String := "group-out"
def COLLAPSED_GROUP_WIDTH : Rat := 220
def COLLAPSED_GROUP_HEIGHT : Rat := 80

def toRFNode (look : NodeModel Sub → Look) (node : NodeModel Sub) : RFNode Look where
  id := node.id
  position := node.position
  look := look node
  style := if node.type = CALLOUT_NODE_TYPE then some { zIndex := some (-2) } else none

def toRFEdge (look : EdgeModel → Look) (edge : EdgeModel) : RFEdge Look where
  id := edge.id
  source := edge.source.node_id
  sourceHandle := edge.source.port_id
  target := edge.target.node_id
  targetHandle := edge.target.port_id
  look := look edge

/-! ## Children of containers -/

def modelById (nodeModels : List (NodeModel Sub)) : Dict String (NodeModel Sub) :=
  .ofList (nodeModels.map fun model => (model.id, model))

def membersByGroupId (nodeModels : List (NodeModel Sub)) : Dict String (List (NodeModel Sub)) :=
  Buckets.collect Prod.fst Prod.snd
    (nodeModels.filterMap fun model => (groupOf model).map (·, model))

/-- The members of a group, if there are any. -/
def membersIn (nodeModels : List (NodeModel Sub)) (groupId : String) :
    Option (List (NodeModel Sub)) :=
  ((membersByGroupId nodeModels).get? groupId).filter (· ≠ [])

/-- The bounds of the container that a node is a child of. -/
def parentBounds (nodeModels : List (NodeModel Sub)) (model : NodeModel Sub) :
    Option (String × Bounds) := do
  let groupId ← groupOf model
  let groupModel ← (modelById nodeModels).get? groupId
  let members ← membersIn nodeModels groupId
  if groupModel.type ≠ GROUP_NODE_TYPE then none else some (groupId, computeGroupBounds members)

def nestNode (nodeModels : List (NodeModel Sub)) (rfNode : RFNode Look) : RFNode Look :=
  match (modelById nodeModels).get? rfNode.id with
  | none => rfNode
  | some model =>
      if model.type = GROUP_NODE_TYPE then
        match membersIn nodeModels model.id with
        | none => rfNode
        | some members =>
            let bounds := computeGroupBounds members
            { rfNode with
              position := { x := bounds.x, y := bounds.y }
              style := some { rfNode.style.getD {} with
                width := some bounds.width, height := some bounds.height }
              zIndex := some (-1) }
      else
        match parentBounds nodeModels model with
        | none => rfNode
        | some (groupId, bounds) =>
            { rfNode with
              parentId := some groupId
              extent := some "parent"
              position := { x := model.position.x - bounds.x, y := model.position.y - bounds.y } }

def isContainer (nodeModels : List (NodeModel Sub)) (rfNode : RFNode Look) : Bool :=
  ((modelById nodeModels).get? rfNode.id).any (·.type = GROUP_NODE_TYPE)

/-- Containers come before their children. -/
def applyGroupNesting (nodeModels : List (NodeModel Sub)) (rfNodes : List (RFNode Look)) :
    List (RFNode Look) :=
  let mapped := rfNodes.map (nestNode nodeModels)
  mapped.filter (isContainer nodeModels) ++ mapped.filter (!isContainer nodeModels ·)

def toAbsolutePosition (nodeModels : List (NodeModel Sub)) (nodeId : String)
    (relativePosition : Position) : Position :=
  match (modelById nodeModels).get? nodeId with
  | none => relativePosition
  | some model =>
      match parentBounds nodeModels model with
      | none => relativePosition
      | some (_, bounds) =>
          { x := relativePosition.x + bounds.x, y := relativePosition.y + bounds.y }

/-! ## Collapsed groups -/

/-- The collapsed group that a node is a member of. -/
def collapsedGroup (nodeModels : List (NodeModel Sub)) (collapsed : Finset String)
    (nodeId : String) : Option String := do
  let model ← (modelById nodeModels).get? nodeId
  (groupOf model).filter (· ∈ collapsed)

def collapseNode (nodeModels : List (NodeModel Sub)) (collapsed : Finset String)
    (rfNode : RFNode Look) : Option (RFNode Look) :=
  if (collapsedGroup nodeModels collapsed rfNode.id).isSome then none
  else if isContainer nodeModels rfNode && rfNode.id ∈ collapsed then
    some { rfNode with
      style := some { rfNode.style.getD {} with
        width := some COLLAPSED_GROUP_WIDTH, height := some COLLAPSED_GROUP_HEIGHT } }
  else some rfNode

def applyCollapsedGroups (nodeModels : List (NodeModel Sub)) (collapsed : Finset String)
    (rfNodes : List (RFNode Look)) : List (RFNode Look) :=
  if collapsed = ∅ then rfNodes else rfNodes.filterMap (collapseNode nodeModels collapsed)

/-- `resolve`. -/
def resolveEnd (nodeModels : List (NodeModel Sub)) (collapsed : Finset String) (nodeId : String) :
    String :=
  (collapsedGroup nodeModels collapsed nodeId).getD nodeId

def reanchorEdge (nodeModels : List (NodeModel Sub)) (collapsed : Finset String)
    (edge : RFEdge Look) : Option (RFEdge Look) :=
  let resolvedSource := resolveEnd nodeModels collapsed edge.source
  let resolvedTarget := resolveEnd nodeModels collapsed edge.target
  -- an edge within a collapsed group is not drawn
  if resolvedSource = resolvedTarget ∧ resolvedSource ≠ edge.source then none
  else if resolvedSource = edge.source ∧ resolvedTarget = edge.target then some edge
  else
    some { edge with
      source := resolvedSource
      sourceHandle := if resolvedSource = edge.source then edge.sourceHandle else GROUP_OUT_HANDLE
      target := resolvedTarget
      targetHandle := if resolvedTarget = edge.target then edge.targetHandle else GROUP_IN_HANDLE }

def reanchorEdgesForCollapsedGroups (nodeModels : List (NodeModel Sub)) (collapsed : Finset String)
    (rfEdges : List (RFEdge Look)) : List (RFEdge Look) :=
  if collapsed = ∅ then rfEdges else rfEdges.filterMap (reanchorEdge nodeModels collapsed)

/-! ## The canvas -/

section Canvas

variable (nodes : Dict String (NodeModel Sub)) (edges : Dict String EdgeModel)
  (collapsed : Finset String)

def rawNodes (look : NodeModel Sub → Look) : List (RFNode Look) :=
  applyCollapsedGroups nodes.values collapsed
    (applyGroupNesting nodes.values (nodes.values.map (toRFNode look)))

def rawEdges (look : EdgeModel → Look) : List (RFEdge Look) :=
  reanchorEdgesForCollapsedGroups nodes.values collapsed (edges.values.map (toRFEdge look))

end Canvas

/-! ## What is drawn -/

theorem modelById_values {nodes : Dict String (NodeModel Sub)} (hkeyed : Keyed nodes) :
    modelById nodes.values = nodes := by
  have hentries : nodes.values.map (fun model => (model.id, model)) = nodes.entries := by
    rw [Dict.values, List.map_map]
    refine (List.map_congr_left fun entry hentry => ?_).trans (List.map_id _)
    have hid := hkeyed entry.1 entry.2 ((Dict.mem_entries_iff nodes).mp hentry)
    exact Prod.ext hid rfl
  apply Dict.ext_entries
  rw [modelById, hentries, Dict.entries_ofList nodes.nodup]

@[simp] theorem nestNode_id (nodeModels : List (NodeModel Sub)) (rfNode : RFNode Look) :
    (nestNode nodeModels rfNode).id = rfNode.id := by
  rw [nestNode]
  split
  · rfl
  · split
    · split <;> rfl
    · split <;> rfl

theorem mem_applyGroupNesting {nodeModels : List (NodeModel Sub)} {rfNodes : List (RFNode Look)}
    {rfNode : RFNode Look} :
    rfNode ∈ applyGroupNesting nodeModels rfNodes ↔
      ∃ base ∈ rfNodes, nestNode nodeModels base = rfNode := by
  rw [applyGroupNesting, List.mem_append, List.mem_filter, List.mem_filter, ← and_or_left,
    List.mem_map]
  cases isContainer nodeModels rfNode <;> simp

theorem collapseNode_eq_some {nodeModels : List (NodeModel Sub)} {collapsed : Finset String}
    {rfNode shown : RFNode Look} (h : collapseNode nodeModels collapsed rfNode = some shown) :
    collapsedGroup nodeModels collapsed rfNode.id = none ∧ shown.id = rfNode.id ∧
      shown.position = rfNode.position := by
  rw [collapseNode] at h
  by_cases hhidden : (collapsedGroup nodeModels collapsed rfNode.id).isSome
  · rw [if_pos hhidden] at h
    cases h
  · rw [if_neg hhidden] at h
    refine ⟨Option.not_isSome_iff_eq_none.mp hhidden, ?_⟩
    split at h <;> (cases h; exact ⟨rfl, rfl⟩)

theorem exists_collapseNode {nodeModels : List (NodeModel Sub)} {collapsed : Finset String}
    {rfNode : RFNode Look} (h : collapsedGroup nodeModels collapsed rfNode.id = none) :
    ∃ shown, collapseNode nodeModels collapsed rfNode = some shown ∧ shown.id = rfNode.id := by
  rw [collapseNode, h]
  simp only [Option.isSome_none, Bool.false_eq_true, if_false]
  split <;> exact ⟨_, rfl, rfl⟩

theorem collapsedGroup_empty (nodeModels : List (NodeModel Sub)) (id : String) :
    collapsedGroup nodeModels ∅ id = none := by
  rw [collapsedGroup]
  cases (modelById nodeModels).get? id with
  | none => rfl
  | some model =>
      show (groupOf model).filter _ = none
      cases groupOf model <;> simp

section Drawn

variable {nodes : Dict String (NodeModel Sub)} {collapsed : Finset String}
  {look : NodeModel Sub → Look}

/-- A node of React Flow and the node it draws. -/
theorem of_mem_rawNodes {shown : RFNode Look} (h : shown ∈ rawNodes nodes collapsed look) :
    ∃ node ∈ nodes.values, shown.id = node.id ∧
      shown.position = (nestNode nodes.values (toRFNode look node)).position ∧
      collapsedGroup nodes.values collapsed node.id = none := by
  rw [rawNodes, applyCollapsedGroups] at h
  by_cases hnone : collapsed = ∅
  · rw [if_pos hnone] at h
    obtain ⟨_, hbase, rfl⟩ := mem_applyGroupNesting.mp h
    obtain ⟨node, hnode, rfl⟩ := List.mem_map.mp hbase
    exact ⟨node, hnode, nestNode_id .., rfl, by rw [hnone]; exact collapsedGroup_empty ..⟩
  · rw [if_neg hnone] at h
    obtain ⟨nested, hnested, hshown⟩ := List.mem_filterMap.mp h
    obtain ⟨_, hbase, rfl⟩ := mem_applyGroupNesting.mp hnested
    obtain ⟨node, hnode, rfl⟩ := List.mem_map.mp hbase
    obtain ⟨hvisible, hid, hposition⟩ := collapseNode_eq_some hshown
    rw [nestNode_id] at hvisible hid
    exact ⟨node, hnode, hid, hposition, hvisible⟩

theorem exists_mem_rawNodes {node : NodeModel Sub} (hnode : node ∈ nodes.values)
    (hvisible : collapsedGroup nodes.values collapsed node.id = none) :
    ∃ shown ∈ rawNodes nodes collapsed look, shown.id = node.id := by
  have hnested : nestNode nodes.values (toRFNode look node) ∈
      applyGroupNesting nodes.values (nodes.values.map (toRFNode look)) :=
    mem_applyGroupNesting.mpr ⟨_, List.mem_map_of_mem hnode, rfl⟩
  rw [rawNodes, applyCollapsedGroups]
  by_cases hnone : collapsed = ∅
  · rw [if_pos hnone]
    exact ⟨_, hnested, nestNode_id ..⟩
  · rw [if_neg hnone]
    have hvisible' : collapsedGroup nodes.values collapsed
        (nestNode nodes.values (toRFNode look node)).id = none := by
      rw [nestNode_id]
      exact hvisible
    obtain ⟨shown, hshown, hid⟩ := exists_collapseNode hvisible'
    exact ⟨shown, List.mem_filterMap.mpr ⟨_, hnested, hshown⟩, hid.trans (nestNode_id ..)⟩

end Drawn

/-! ## Ends -/

section Ends

variable (nodes : Dict String (NodeModel Sub)) (collapsed : Finset String)
  (look : NodeModel Sub → Look)

def Drawn (id : String) : Prop := ∃ shown ∈ rawNodes nodes collapsed look, shown.id = id

/-- The node is left out, and the container of its collapsed group is drawn. -/
structure HiddenBehind (id groupId : String) : Prop where
  hidden : ¬ Drawn nodes collapsed look id
  member : ∃ node, nodes.get? id = some node ∧ groupOf node = some groupId
  closed : groupId ∈ collapsed
  drawn : Drawn nodes collapsed look groupId

/-- Where an edge that ends at the node is to be drawn: at the node, or at the container
that hides it. -/
inductive Anchored (id : String) : String → Prop
  | drawn : Drawn nodes collapsed look id → Anchored id id
  | hidden {groupId : String} : HiddenBehind nodes collapsed look id groupId → Anchored id groupId

end Ends

section Law

variable {nodes : Dict String (NodeModel Sub)} {collapsed : Finset String}
  {look : NodeModel Sub → Look}

theorem drawn_iff (hkeyed : Keyed nodes) {id : String} :
    Drawn nodes collapsed look id ↔
      (∃ node, nodes.get? id = some node) ∧ collapsedGroup nodes.values collapsed id = none := by
  constructor
  · rintro ⟨shown, hshown, rfl⟩
    obtain ⟨node, hnode, hid, -, hvisible⟩ := of_mem_rawNodes hshown
    obtain ⟨key, hget⟩ := (Dict.mem_values_iff nodes).mp hnode
    rw [hid]
    exact ⟨⟨node, by rw [hkeyed key node hget, hget]⟩, hvisible⟩
  · rintro ⟨⟨node, hget⟩, hvisible⟩
    have hid := hkeyed id node hget
    have hmem := (Dict.mem_values_iff nodes).mpr ⟨id, hget⟩
    rw [← hid] at hvisible
    obtain ⟨shown, hshown, heq⟩ := @exists_mem_rawNodes _ _ _ _ look _ hmem hvisible
    exact ⟨shown, hshown, heq.trans hid⟩

theorem collapsedGroup_eq_some (hkeyed : Keyed nodes) {id groupId : String} :
    collapsedGroup nodes.values collapsed id = some groupId ↔
      (∃ node, nodes.get? id = some node ∧ groupOf node = some groupId) ∧ groupId ∈ collapsed := by
  rw [collapsedGroup, modelById_values hkeyed]
  cases nodes.get? id with
  | none => simp
  | some node => simp [Option.filter_eq_some_iff]

/-- An anchored end is led to its anchor, and is hidden if that is another node. -/
theorem resolveEnd_of_anchored (hkeyed : Keyed nodes) {id anchor : String}
    (h : Anchored nodes collapsed look id anchor) :
    resolveEnd nodes.values collapsed id = anchor ∧ Drawn nodes collapsed look anchor := by
  cases h with
  | drawn hdrawn => exact ⟨by rw [resolveEnd, ((drawn_iff hkeyed).mp hdrawn).2]; rfl, hdrawn⟩
  | hidden hhidden =>
      have hgroup := (collapsedGroup_eq_some hkeyed).mpr ⟨hhidden.member, hhidden.closed⟩
      exact ⟨by rw [resolveEnd, hgroup]; rfl, hhidden.drawn⟩

theorem hiddenBehind_of_ne {id anchor : String} (h : Anchored nodes collapsed look id anchor)
    (hne : anchor ≠ id) : HiddenBehind nodes collapsed look id anchor := by
  cases h with
  | drawn => exact absurd rfl hne
  | hidden hhidden => exact hhidden

theorem HiddenBehind.ne {id groupId : String} (h : HiddenBehind nodes collapsed look id groupId) :
    groupId ≠ id := by
  rintro rfl
  exact h.hidden h.drawn

theorem HiddenBehind.anchor {id groupId anchor : String}
    (h : HiddenBehind nodes collapsed look id groupId)
    (hanchor : Anchored nodes collapsed look id anchor) : anchor = groupId := by
  obtain ⟨node, hget, hgroup⟩ := h.member
  cases hanchor with
  | drawn hdrawn => exact absurd hdrawn h.hidden
  | hidden hhidden =>
      obtain ⟨node', hget', hgroup'⟩ := hhidden.member
      cases hget.symm.trans hget'
      exact Option.some.inj (hgroup'.symm.trans hgroup)

/-! ## Edges and positions -/

/-- The edge between two anchors. -/
def ledTo {Line : Type} (edge : RFEdge Line) (source target : String) : RFEdge Line :=
  { edge with
    source
    sourceHandle := if source = edge.source then edge.sourceHandle else GROUP_OUT_HANDLE
    target
    targetHandle := if target = edge.target then edge.targetHandle else GROUP_IN_HANDLE }

/-- An edge with anchored ends is led to the anchors, unless both ends are behind one
container. -/
theorem reanchorEdge_of_anchored {Line : Type} (hkeyed : Keyed nodes) {edge : RFEdge Line}
    {source target : String} (hsource : Anchored nodes collapsed look edge.source source)
    (htarget : Anchored nodes collapsed look edge.target target)
    (hown : ¬ HiddenBehind nodes collapsed look edge.source edge.target) :
    (reanchorEdge nodes.values collapsed edge = none ↔
      ∃ groupId, HiddenBehind nodes collapsed look edge.source groupId ∧
        HiddenBehind nodes collapsed look edge.target groupId) ∧
    ∀ shown, reanchorEdge nodes.values collapsed edge = some shown →
      shown = ledTo edge source target := by
  have hboth : (∃ groupId, HiddenBehind nodes collapsed look edge.source groupId ∧
      HiddenBehind nodes collapsed look edge.target groupId) ↔
        source = target ∧ source ≠ edge.source := by
    constructor
    · rintro ⟨groupId, hs, ht⟩
      rw [hs.anchor hsource, ht.anchor htarget]
      exact ⟨rfl, hs.ne⟩
    · rintro ⟨rfl, hne⟩
      -- both ends are led to the same container, so it hides both
      have hs := hiddenBehind_of_ne hsource hne
      have hne' : source ≠ edge.target := fun heq => hown (heq ▸ hs)
      exact ⟨source, hs, hiddenBehind_of_ne htarget hne'⟩
  have hedge : reanchorEdge nodes.values collapsed edge =
      if source = target ∧ source ≠ edge.source then none else some (ledTo edge source target) := by
    rw [reanchorEdge]
    simp only [(resolveEnd_of_anchored hkeyed hsource).1, (resolveEnd_of_anchored hkeyed htarget).1]
    refine if_congr Iff.rfl rfl ?_
    by_cases hstay : source = edge.source ∧ target = edge.target
    · rw [if_pos hstay]
      obtain ⟨rfl, rfl⟩ := hstay
      simp only [ledTo, if_true]
    · rw [if_neg hstay]
      rfl
  rw [hboth, hedge]
  by_cases hdrop : source = target ∧ source ≠ edge.source
  · rw [if_pos hdrop]
    exact ⟨iff_of_true rfl hdrop, nofun⟩
  · rw [if_neg hdrop]
    exact ⟨iff_of_false nofun hdrop, fun _ h => (Option.some.inj h).symm⟩

theorem rawEdges_eq {Line : Type} (nodes : Dict String (NodeModel Sub))
    (edges : Dict String EdgeModel) (collapsed : Finset String) (line : EdgeModel → Line) :
    rawEdges nodes edges collapsed line =
      edges.values.filterMap fun edge =>
        reanchorEdge nodes.values collapsed (toRFEdge line edge) := by
  rw [rawEdges, reanchorEdgesForCollapsedGroups]
  split
  next hnone =>
    subst hnone
    have hstay (edge : RFEdge Line) : reanchorEdge nodes.values ∅ edge = some edge := by
      simp [reanchorEdge, resolveEnd, collapsedGroup_empty]
    simp only [hstay]
    rw [List.filterMap_eq_map']
  next => rw [List.filterMap_map]; rfl

/-- Away from containers that have members or a parent, a drawn position is taken back. -/
theorem toAbsolutePosition_nestNode (hkeyed : Keyed nodes) {node : NodeModel Sub}
    (hnode : nodes.get? node.id = some node)
    (hplain : node.type = GROUP_NODE_TYPE →
      membersIn nodes.values node.id = none ∧ parentBounds nodes.values node = none) :
    toAbsolutePosition nodes.values node.id
        (nestNode nodes.values (toRFNode look node)).position = node.position := by
  rw [toAbsolutePosition, nestNode, modelById_values hkeyed]
  simp only [toRFNode, hnode]
  by_cases htype : node.type = GROUP_NODE_TYPE
  · obtain ⟨hmembers, hparent⟩ := hplain htype
    simp only [htype, hmembers, hparent, if_true]
  · simp only [htype, if_false]
    cases parentBounds nodes.values node with
    | none => rfl
    | some parent => simp

/-! ## The canvas keeps what it was given -/

/-- What is asked of the canvas: every edge whose ends are anchored is drawn once between its
anchors, or dropped when both ends are behind one container (an edge from a member to its own
container is not asked about); positions are taken back; and where no container is a member
every end is anchored. -/
structure Rendering {Line : Type} (nodes : Dict String (NodeModel Sub))
    (edges : Dict String EdgeModel) (collapsed : Finset String) (look : NodeModel Sub → Look)
    (line : EdgeModel → Line) : Prop where
  edges : ∃ draw : EdgeModel → Option (RFEdge Line),
    rawEdges nodes edges collapsed line = edges.values.filterMap draw ∧
    ∀ edge ∈ edges.values, ∀ source target,
      Anchored nodes collapsed look edge.source.node_id source →
      Anchored nodes collapsed look edge.target.node_id target →
      ¬ HiddenBehind nodes collapsed look edge.source.node_id edge.target.node_id →
      (draw edge = none ↔
        ∃ groupId, HiddenBehind nodes collapsed look edge.source.node_id groupId ∧
          HiddenBehind nodes collapsed look edge.target.node_id groupId) ∧
      ∀ shown, draw edge = some shown → shown = ledTo (toRFEdge line edge) source target ∧
        Drawn nodes collapsed look shown.source ∧ Drawn nodes collapsed look shown.target
  positions : ∀ shown ∈ rawNodes nodes collapsed look, ∀ node, nodes.get? shown.id = some node →
    (node.type = GROUP_NODE_TYPE →
      membersIn nodes.values node.id = none ∧ parentBounds nodes.values node = none) →
    toAbsolutePosition nodes.values shown.id shown.position = node.position
  anchored : (∀ id node, nodes.get? id = some node → node.type = GROUP_NODE_TYPE →
      groupOf node = none) →
    (∀ groupId ∈ collapsed, ∃ node, nodes.get? groupId = some node ∧ node.type = GROUP_NODE_TYPE) →
    ∀ id node, nodes.get? id = some node → ∃ anchor, Anchored nodes collapsed look id anchor

theorem rendering {Line : Type} (nodes : Dict String (NodeModel Sub))
    (edges : Dict String EdgeModel) (collapsed : Finset String) (look : NodeModel Sub → Look)
    (line : EdgeModel → Line) (hkeyed : Keyed nodes) :
    Rendering nodes edges collapsed look line := by
  refine ⟨⟨_, rawEdges_eq .., ?_⟩, ?_, ?_⟩
  · intro edge _ source target hsource htarget hown
    obtain ⟨hdrop, hled⟩ := @reanchorEdge_of_anchored _ _ _ _ _ _ hkeyed (toRFEdge line edge) _ _
      hsource htarget hown
    refine ⟨hdrop, fun shown hshown => ?_⟩
    have heq := hled shown hshown
    rw [heq]
    exact ⟨rfl, (resolveEnd_of_anchored hkeyed hsource).2,
      (resolveEnd_of_anchored hkeyed htarget).2⟩
  · intro shown hshown node hget hplain
    obtain ⟨model, hmodel, hid, hposition, -⟩ := of_mem_rawNodes hshown
    obtain ⟨key, hkey⟩ := (Dict.mem_values_iff nodes).mp hmodel
    rw [← hkeyed key model hkey] at hkey
    rw [hid] at hget ⊢
    cases hkey.symm.trans hget
    rw [hposition]
    exact toAbsolutePosition_nestNode hkeyed hkey hplain
  · intro hflat hcontainers id node hget
    cases hgroup : collapsedGroup nodes.values collapsed id with
    | none => exact ⟨id, .drawn ((drawn_iff hkeyed).mpr ⟨⟨node, hget⟩, hgroup⟩)⟩
    | some groupId =>
        obtain ⟨hmember, hclosed⟩ := (collapsedGroup_eq_some hkeyed).mp hgroup
        obtain ⟨container, hcontainer, htype⟩ := hcontainers groupId hclosed
        -- the container itself is in no group, so it is drawn
        have hvisible : collapsedGroup nodes.values collapsed groupId = none := by
          rw [Option.eq_none_iff_forall_ne_some]
          intro parent hparent
          obtain ⟨⟨node', hget', hparent'⟩, -⟩ := (collapsedGroup_eq_some hkeyed).mp hparent
          cases hcontainer.symm.trans hget'
          rw [hflat groupId container hcontainer htype] at hparent'
          cases hparent'
        refine ⟨groupId, .hidden ⟨fun hdrawn => ?_, hmember, hclosed, ?_⟩⟩
        · rw [(drawn_iff hkeyed).mp hdrawn |>.2] at hgroup
          cases hgroup
        · exact (drawn_iff hkeyed).mpr ⟨⟨container, hcontainer⟩, hvisible⟩

end Law

/-! ## Groups in groups -/

/-- Four nodes, with an edge from the first to the last. -/
def four_nodes : GraphStore Unit :=
  let node (id : String) (x : Rat) : String × NodeModel Unit :=
    (id, {
      id
      type := "data.load_csv"
      paradigm := .FUNCTIONAL
      params := []
      ports := []
      position := { x, y := 0 } })
  { GraphStore.new with
    nodes := .ofList [node "a" 0, node "b" 300, node "c" 600, node "d" 900]
    edges := .ofList [("e", {
      id := "e"
      source := ⟨"a", some "out"⟩
      target := ⟨"d", some "in"⟩ })] }

def grouped : GraphStore Unit := four_nodes.groupSelection ["a", "b"] "g1"

/-- The group with a third node in another group. -/
def grouped_twice : GraphStore Unit := grouped.groupSelection ["g1", "c"] "g2"

/-- The group after one of its members has been dragged. -/
def dragged : GraphStore Unit := grouped.moveNode "a" { x := 100, y := 0 }

theorem keyed_of_all {nodes : Dict String (NodeModel Sub)}
    (h : nodes.entries.all (fun entry => entry.2.id = entry.1) = true) : Keyed nodes :=
  fun id node hget => of_decide_eq_true
    (List.all_eq_true.mp h (id, node) ((Dict.mem_entries_iff nodes).mpr hget))

/-- With the group collapsed the edge comes from its container. -/
theorem rendering_grouped : Keyed grouped.nodes ∧
    Rendering grouped.nodes grouped.edges {"g1"} (fun _ => ()) (fun _ => ()) := by
  have hkeyed : Keyed grouped.nodes := keyed_of_all (by decide +kernel)
  exact ⟨hkeyed, rendering grouped.nodes grouped.edges {"g1"} (fun _ => ()) (fun _ => ()) hkeyed⟩

/-- With both groups collapsed the edge comes from a container that is not drawn, and the
container of a group whose member was dragged is drawn where it is not stored. -/
theorem nesting_leaves_ends_and_containers :
    (¬ ∀ (nodes : Dict String (NodeModel Unit)) (edges : Dict String EdgeModel)
        (collapsed : Finset String), Keyed nodes →
      (∀ edge ∈ edges.values, edge.source.node_id ∈ nodes.keys ∧ edge.target.node_id ∈ nodes.keys) →
      ∀ shown ∈ rawEdges nodes edges collapsed (fun _ => ()),
        Drawn nodes collapsed (fun _ => ()) shown.source ∧
          Drawn nodes collapsed (fun _ => ()) shown.target) ∧
    ¬ ∀ (nodes : Dict String (NodeModel Unit)) (collapsed : Finset String), Keyed nodes →
      ∀ shown ∈ rawNodes nodes collapsed (fun _ => ()), ∀ node, nodes.get? shown.id = some node →
        toAbsolutePosition nodes.values shown.id shown.position = node.position := by
  constructor
  · intro h
    have hkeyed : Keyed grouped_twice.nodes := keyed_of_all (by decide +kernel)
    have hnodes : grouped_twice.edges.values.all (fun edge =>
        edge.source.node_id ∈ grouped_twice.nodes.keys ∧
          edge.target.node_id ∈ grouped_twice.nodes.keys) = true := by decide +kernel
    have hends : "g1" ∈ (rawEdges grouped_twice.nodes grouped_twice.edges {"g1", "g2"}
        (fun _ => ())).map (·.source) := by decide +kernel
    have hdrawn : "g1" ∉ (rawNodes grouped_twice.nodes {"g1", "g2"} (fun _ => ())).map (·.id) := by
      decide +kernel
    obtain ⟨shown, hshown, hsource⟩ := List.mem_map.mp hends
    obtain ⟨container, hcontainer, hid⟩ := (h _ _ _ hkeyed
      (fun edge hedge => of_decide_eq_true (List.all_eq_true.mp hnodes edge hedge)) shown hshown).1
    exact hdrawn (List.mem_map.mpr ⟨container, hcontainer, hid.trans hsource⟩)
  · intro h
    have hkeyed : Keyed dragged.nodes := keyed_of_all (by decide +kernel)
    have hback : ("g1", { x := 60, y := -40 }) ∈
        (rawNodes dragged.nodes ∅ (fun _ => ())).map fun shown =>
          (shown.id, toAbsolutePosition dragged.nodes.values shown.id shown.position) := by
      decide +kernel
    have hstored : (dragged.nodes.get? "g1").map (·.position) = some { x := -40, y := -40 } := by
      decide +kernel
    obtain ⟨shown, hshown, heq⟩ := List.mem_map.mp hback
    obtain ⟨hid, hposition⟩ := Prod.mk.inj heq
    obtain ⟨node, hget, hnode⟩ := Option.map_eq_some_iff.mp hstored
    have hsame := h _ _ hkeyed shown hshown node (by rw [hid]; exact hget)
    rw [hposition, hnode] at hsame
    revert hsame
    decide +kernel

end EmergentFlow.ReactFlow
