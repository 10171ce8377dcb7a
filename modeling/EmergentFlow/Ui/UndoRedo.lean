import EmergentFlow.Lib.UndoHistory
import EmergentFlow.Ui.GraphStore

/-!
# Ui — UndoRedo

The store of the canvas refines a bounded linear history. `effect` tells what an
action does to the history in the state it meets; `act_refines` is the simulation,
and the laws of undo and redo are those of the library.
-/

namespace EmergentFlow.Canvas

variable {Sub : Type} {host : Host Sub} {s : GraphStore Sub}

open UndoHistory (Op)

/-! ## The history of a store -/

/-- The store as a document with its versions. -/
def GraphStore.view (s : GraphStore Sub) : UndoHistory (CanvasModel Sub) :=
  ⟨s.past, s.toCanvasModel, s.future⟩

/-- A version that is its own snapshot. -/
def CanvasModel.Normal (m : CanvasModel Sub) : Prop := m.groupMeta.isSome

theorem CanvasModel.Normal.snapshot {m : CanvasModel Sub} (h : m.Normal) : snapshot m = m := by
  obtain ⟨groups, hgroups⟩ := Option.isSome_iff_exists.mp h
  simp only [Canvas.snapshot, hgroups, Option.getD_some]
  rw [← hgroups]

/-! ## What an action does -/

inductive Effect where
  /-- nothing changes -/
  | kept
  /-- the model changes and no version is pushed -/
  | amended
  /-- the version before is pushed -/
  | recorded
  | undone
  | redone
  | cleared
  deriving DecidableEq

/-- An action that does nothing unless there is something to do. -/
def Effect.guarded (nothing : Prop) [Decidable nothing] : Effect :=
  if nothing then .kept else .recorded

namespace GraphStore

/-- A move on a node that is there: the first of a drag is recorded. -/
def move_effect (s : GraphStore Sub) (id txn : String) : Effect :=
  if (s.nodes.get? id).isNone then .kept
  else if s.lastTxn = some txn then .amended else .recorded

/-- What the action does to the history. -/
def effect (host : Host Sub) (s : GraphStore Sub) : Action Sub → Effect
  | .pushHistory _ | .addNodeFromSpec _ _ _ _ | .loadIR _ _ | .loadModel _ _ | .tidyLayout
  | .expandLayout | .setName _ | .addGraphParam | .ungroupNodes _ => .recorded
  | .removeNode id | .setParam id _ _ | .setParamRef id _ _ =>
      .guarded ((s.nodes.get? id).isNone)
  | .moveNode id _ => s.move_effect id ("move:" ++ id)
  | .moveGroup id _ => s.move_effect id ("move-group:" ++ id)
  | .endNodeDrag => .kept
  | .connect source target _ =>
      .guarded (s.edges.values.any fun edge => edge.source = source ∧ edge.target = target)
  | .pasteNodes models _ _ => .guarded (models = [])
  | .groupSelection ids _ | .addCalloutAroundSelection ids _ | .extractToComposite ids _ _ _ =>
      .guarded ((s.selected ids).length < 2)
  | .createResultCardForSelection ids _ _ _ =>
      .guarded (host.catalog.find? (·.type = "reports.result_card") = none ∨ s.cardNodes ids = [])
  | .ungroupSelection ids => .guarded (s.selectedGroups ids = [])
  | .removeEdge id => .guarded ((s.edges.get? id).isNone)
  | .reset => .cleared
  | .undo => .undone
  | .redo => .redone
  | .setGraphParamValue name _ | .setGraphParamType name _ | .setGraphParamDescription name _
  | .removeGraphParam name => .guarded (((s.params.getD .empty).get? name).isNone)
  | .groupNodes ids _ _ => .guarded (ids.length < 2)
  | .setGroupMeta _ patch => if patch.label.isSome ∨ patch.color.isSome then .recorded else .amended

end GraphStore

/-- The operation on the history, for the model after it. -/
def Effect.op (m : CanvasModel Sub) : Effect → Op (CanvasModel Sub)
  | .kept | .amended => .amend m
  | .recorded => .record m
  | .undone => .undo
  | .redone => .redo
  | .cleared => .fresh m

def GraphStore.op (host : Host Sub) (s : GraphStore Sub) (a : Action Sub) :
    Op (CanvasModel Sub) :=
  (s.effect host a).op (act host s a).toCanvasModel

/-! ## Every action is one operation -/

section Simulation

variable {txn : String} {f : CanvasModel Sub → CanvasModel Sub}

theorem view_pushHistory (hs : s.toCanvasModel.Normal) :
    (s.pushHistory txn).view = s.view.record HISTORY_LIMIT s.toCanvasModel := by
  simp only [GraphStore.view, GraphStore.pushHistory, hs.snapshot]
  rfl

theorem view_edit (hs : s.toCanvasModel.Normal) : ((s.pushHistory txn).setModel f).view =
    s.view.step HISTORY_LIMIT
      (Effect.recorded.op ((s.pushHistory txn).setModel f).toCanvasModel) := by
  simp only [GraphStore.view, GraphStore.pushHistory, GraphStore.setModel, hs.snapshot]
  rfl

theorem view_guarded (hs : s.toCanvasModel.Normal) {nothing : Prop} [Decidable nothing] :
    (if nothing then s else (s.pushHistory txn).setModel f).view =
      s.view.step HISTORY_LIMIT ((Effect.guarded nothing).op
        (if nothing then s else (s.pushHistory txn).setModel f).toCanvasModel) := by
  by_cases h : nothing
  · simp only [Effect.guarded, if_pos h]
    rfl
  · simp only [Effect.guarded, if_neg h]
    exact view_edit hs

theorem view_move (hs : s.toCanvasModel.Normal) {id : String} {position : Position} :
    (s.moveNode id position).view = s.view.step HISTORY_LIMIT
      ((s.move_effect id ("move:" ++ id)).op (s.moveNode id position).toCanvasModel) := by
  rw [GraphStore.moveNode, GraphStore.move_effect]
  by_cases h : (s.nodes.get? id).isNone
  · simp only [if_pos h]
    rfl
  · by_cases htxn : s.lastTxn = some ("move:" ++ id)
    · simp only [if_neg h, if_pos htxn]
      rfl
    · simp only [if_neg h, if_neg htxn]
      exact view_edit hs

theorem view_updateGraphParam (hs : s.toCanvasModel.Normal) {name : String}
    {g : ParamModel → ParamModel} : (s.updateGraphParam txn name g).view =
      s.view.step HISTORY_LIMIT ((Effect.guarded ((s.params.getD .empty).get? name).isNone).op
        (s.updateGraphParam txn name g).toCanvasModel) := by
  rw [GraphStore.updateGraphParam]
  cases (s.params.getD .empty).get? name with
  | none => rfl
  | some existing => exact view_edit hs

theorem view_moveGroup (hs : s.toCanvasModel.Normal) {id : String} {position : Position} :
    (s.moveGroup id position).view = s.view.step HISTORY_LIMIT
      ((s.move_effect id ("move-group:" ++ id)).op (s.moveGroup id position).toCanvasModel) := by
  rw [GraphStore.moveGroup, GraphStore.move_effect]
  by_cases h : (s.nodes.get? id).isNone
  · simp only [if_pos h]
    rfl
  · by_cases htxn : s.lastTxn = some ("move-group:" ++ id)
    · simp only [if_neg h, if_pos htxn]
      rfl
    · simp only [if_neg h, if_neg htxn, GraphStore.view, GraphStore.pushHistory, hs.snapshot]
      rfl

theorem view_connect (hs : s.toCanvasModel.Normal) {source target : EndModel} {edgeId : String} :
    (s.connect host source target edgeId).1.view = s.view.step HISTORY_LIMIT
      ((s.effect host (.connect source target edgeId)).op
        (s.connect host source target edgeId).1.toCanvasModel) := by
  rw [GraphStore.connect, GraphStore.effect, Effect.guarded]
  by_cases h : s.edges.values.any fun edge => edge.source = source ∧ edge.target = target
  · simp only [if_pos h]
    rfl
  · simp only [if_neg h]
    exact view_edit hs

/-- The steps that build a card leave the history of one. -/
theorem view_createResultCard (hs : s.toCanvasModel.Normal) {nodeIds : List String}
    {cardId : String} {portIds edgeIds : Nat → String} :
    (s.createResultCardForSelection host nodeIds cardId portIds edgeIds).view =
      s.view.step HISTORY_LIMIT
        ((s.effect host (.createResultCardForSelection nodeIds cardId portIds edgeIds)).op
          (s.createResultCardForSelection host nodeIds cardId portIds edgeIds).toCanvasModel) := by
  rw [GraphStore.createResultCardForSelection, GraphStore.effect, Effect.guarded]
  cases hspec : host.catalog.find? (·.type = "reports.result_card") with
  | none =>
      simp only [true_or, if_true]
      rfl
  | some spec =>
      by_cases hnodes : s.cardNodes nodeIds = []
      · simp only [if_pos hnodes, if_pos (Or.inr hnodes)]
        rfl
      · simp only [if_neg hnodes, reduceCtorEq, false_or, hs.snapshot]
        rfl

theorem view_undo (hs : s.toCanvasModel.Normal) : s.undo.view = s.view.undo := by
  rw [GraphStore.undo, UndoHistory.undo]
  cases h : s.past.getLast? with
  | none => simp only [GraphStore.view, h]
  | some prev => simp only [GraphStore.view, h, hs.snapshot]

theorem view_redo (hs : s.toCanvasModel.Normal) : s.redo.view = s.view.redo := by
  rw [GraphStore.redo, UndoHistory.redo]
  cases h : s.future.getLast? with
  | none => simp only [GraphStore.view, h]
  | some next => simp only [GraphStore.view, h, hs.snapshot]

theorem view_setGroupMeta (hs : s.toCanvasModel.Normal) {groupId : String}
    {patch : GraphStore.GroupMetaPatch} : (s.setGroupMeta groupId patch).view =
      s.view.step HISTORY_LIMIT ((s.effect host (.setGroupMeta groupId patch)).op
        (s.setGroupMeta groupId patch).toCanvasModel) := by
  rw [GraphStore.setGroupMeta, GraphStore.effect]
  by_cases h : patch.label.isSome ∨ patch.color.isSome
  · simp only [if_pos h]
    exact view_edit hs
  · simp only [if_neg h]
    rfl

variable (host) in
/-- Every action is one operation on the history. -/
theorem act_refines (hs : s.toCanvasModel.Normal) (a : Action Sub) :
    (act host s a).view = s.view.step HISTORY_LIMIT (s.op host a) := by
  cases a with
  | pushHistory txn => exact view_pushHistory hs
  | addNodeFromSpec spec position nodeId portIds => exact view_edit hs
  | removeNode nodeId => exact view_guarded hs
  | moveNode nodeId position => exact view_move hs
  | endNodeDrag => rfl
  | setParam nodeId paramName value => exact view_guarded hs
  | setParamRef nodeId paramName ref => exact view_guarded hs
  | connect source target edgeId => exact view_connect hs
  | pasteNodes models nodeIds portIds => exact view_guarded hs
  | groupSelection nodeIds groupId => exact view_guarded hs
  | addCalloutAroundSelection nodeIds calloutId => exact view_guarded hs
  | createResultCardForSelection nodeIds cardId portIds edgeIds => exact view_createResultCard hs
  | ungroupSelection nodeIds => exact view_guarded hs
  | moveGroup groupId position => exact view_moveGroup hs
  | extractToComposite nodeIds compositeId inPortIds outPortIds => exact view_guarded hs
  | removeEdge edgeId => exact view_guarded hs
  | loadIR graph reflow => exact view_edit hs
  | loadModel model reflow => exact view_edit hs
  | tidyLayout => exact view_edit hs
  | expandLayout => exact view_edit hs
  | reset => rfl
  | undo => exact view_undo hs
  | redo => exact view_redo hs
  | setName name => exact view_edit hs
  | addGraphParam => exact view_edit hs
  | setGraphParamValue name value => exact view_updateGraphParam hs
  | setGraphParamType name typeToken => exact view_updateGraphParam hs
  | setGraphParamDescription name description => exact view_updateGraphParam hs
  | removeGraphParam name => exact view_guarded hs
  | groupNodes nodeIds groupName groupId => exact view_guarded hs
  | ungroupNodes groupId => exact view_edit hs
  | setGroupMeta groupId patch => exact view_setGroupMeta hs

end Simulation

/-! ## Versions are their own snapshots -/

/-- The model and every version kept are normal. -/
def GraphStore.Normal (s : GraphStore Sub) : Prop := s.view.All CanvasModel.Normal

theorem groupMeta_setParam {nodeId name : String} {value : ParamValue} :
    (s.setParam nodeId name value).groupMeta = s.groupMeta := by
  rw [GraphStore.setParam]
  split <;> rfl

theorem groupMeta_connect {source target : EndModel} {edgeId : String} :
    (s.connect host source target edgeId).1.groupMeta = s.groupMeta := by
  rw [GraphStore.connect]
  split <;> rfl

theorem groupMeta_connectOutputs {card : EndModel}
    (outputs : List ((NodeModel Sub × PortModel) × String))
    (acc : GraphStore Sub × List ResultCardBlock) :
    (outputs.foldl (GraphStore.connectOutput host card) acc).1.groupMeta = acc.1.groupMeta := by
  induction outputs generalizing acc with
  | nil => rfl
  | cons out outputs ih =>
      rw [List.foldl_cons, ih, GraphStore.connectOutput]
      split <;> exact groupMeta_connect

theorem groupMeta_buildResultCard {spec : CatalogNode} {nodes : List (NodeModel Sub)}
    {cardId : String} {portIds edgeIds : Nat → String} :
    (s.buildResultCard host spec nodes cardId portIds edgeIds).groupMeta = s.groupMeta := by
  rw [GraphStore.buildResultCard, groupMeta_setParam]
  split
  · exact groupMeta_setParam
  · rw [groupMeta_connectOutputs]
    exact groupMeta_setParam

section Normal

variable {txn : String} {f : CanvasModel Sub → CanvasModel Sub}

theorem normal_guarded (hs : s.toCanvasModel.Normal) (hf : (f s.toCanvasModel).Normal)
    {nothing : Prop} [Decidable nothing] :
    (if nothing then s else (s.pushHistory txn).setModel f).toCanvasModel.Normal := by
  split
  · exact hs
  · exact hf

theorem normal_updateGraphParam (hs : s.toCanvasModel.Normal) {name : String}
    {g : ParamModel → ParamModel} : (s.updateGraphParam txn name g).toCanvasModel.Normal := by
  rw [GraphStore.updateGraphParam]
  split
  · exact hs
  · exact hs

theorem normal_createResultCard (hs : s.toCanvasModel.Normal) {nodeIds : List String}
    {cardId : String} {portIds edgeIds : Nat → String} :
    (s.createResultCardForSelection host nodeIds cardId portIds edgeIds).toCanvasModel.Normal := by
  rw [GraphStore.createResultCardForSelection]
  split
  · exact hs
  · split
    · exact hs
    · rw [CanvasModel.Normal, groupMeta_buildResultCard]
      exact hs

theorem normal_setGroupMeta (hs : s.toCanvasModel.Normal) {groupId : String}
    {patch : GraphStore.GroupMetaPatch} :
    (s.setGroupMeta groupId patch).toCanvasModel.Normal := by
  have hpushed : (if patch.label.isSome ∨ patch.color.isSome then s.pushHistory "setGroupMeta"
      else s).toCanvasModel.Normal := by
    split <;> exact hs
  rw [GraphStore.setGroupMeta, GraphStore.setModel]
  split
  · exact hpushed
  · rfl

variable (host) in
/-- What an action makes of a normal model is normal. -/
theorem normal_act (hs : s.toCanvasModel.Normal) (a : Action Sub) (hundo : a ≠ .undo)
    (hredo : a ≠ .redo) : (act host s a).toCanvasModel.Normal := by
  cases a with
  | pushHistory txn => exact hs
  | addNodeFromSpec spec position nodeId portIds => exact hs
  | removeNode nodeId => exact normal_guarded hs hs
  | moveNode nodeId position =>
      rw [act, GraphStore.moveNode]
      split
      · exact hs
      · simp only [GraphStore.setModel, CanvasModel.Normal]
        split <;> exact hs
  | endNodeDrag => exact hs
  | setParam nodeId paramName value => exact normal_guarded hs hs
  | setParamRef nodeId paramName ref => exact normal_guarded hs hs
  | connect source target edgeId =>
      rw [act, CanvasModel.Normal, groupMeta_connect]
      exact hs
  | pasteNodes models nodeIds portIds => exact normal_guarded hs hs
  | groupSelection nodeIds groupId => exact normal_guarded hs hs
  | addCalloutAroundSelection nodeIds calloutId => exact normal_guarded hs hs
  | createResultCardForSelection nodeIds cardId portIds edgeIds => exact normal_createResultCard hs
  | ungroupSelection nodeIds => exact normal_guarded hs hs
  | moveGroup groupId position =>
      rw [act, GraphStore.moveGroup]
      split
      · exact hs
      · simp only [CanvasModel.Normal]
        split <;> exact hs
  | extractToComposite nodeIds compositeId inPortIds outPortIds => exact normal_guarded hs hs
  | removeEdge edgeId => exact normal_guarded hs hs
  | loadIR graph reflow =>
      have hor : ((fromIR graph).groupMeta.or s.groupMeta).isSome := by
        rw [Option.isSome_or, Bool.or_eq_true]
        exact .inr hs
      exact hor
  | loadModel model reflow => rfl
  | tidyLayout => exact hs
  | expandLayout => exact hs
  | reset => rfl
  | undo => exact absurd rfl hundo
  | redo => exact absurd rfl hredo
  | setName name => exact hs
  | addGraphParam => exact hs
  | setGraphParamValue name value => exact normal_updateGraphParam hs
  | setGraphParamType name typeToken => exact normal_updateGraphParam hs
  | setGraphParamDescription name description => exact normal_updateGraphParam hs
  | removeGraphParam name => exact normal_guarded hs hs
  | groupNodes nodeIds groupName groupId =>
      refine normal_guarded hs ?_
      rfl
  | ungroupNodes groupId => rfl
  | setGroupMeta groupId patch => exact normal_setGroupMeta hs

end Normal

theorem op_brings (hs : s.toCanvasModel.Normal) (a : Action Sub) :
    (s.op host a).Brings CanvasModel.Normal := by
  by_cases hundo : a = .undo
  · subst hundo
    trivial
  by_cases hredo : a = .redo
  · subst hredo
    trivial
  have hnormal := normal_act host hs a hundo hredo
  rw [GraphStore.op]
  cases s.effect host a with
  | undone => trivial
  | redone => trivial
  | kept => exact hnormal
  | amended => exact hnormal
  | recorded => exact hnormal
  | cleared => exact hnormal

/-- Every action keeps all versions normal. -/
theorem GraphStore.Normal.act (hs : s.Normal) (a : Action Sub) : (Canvas.act host s a).Normal := by
  rw [GraphStore.Normal, act_refines host hs.present]
  exact hs.step (op_brings hs.present a)

theorem normal_new : (GraphStore.new : GraphStore Sub).Normal := ⟨nofun, rfl, nofun⟩

variable (host) in
theorem normal_run (l : List (Action Sub)) : (Runs.run (act host) .new l).Normal :=
  Runs.invariant normal_new (fun _ a hs => hs.act a) l

end EmergentFlow.Canvas
