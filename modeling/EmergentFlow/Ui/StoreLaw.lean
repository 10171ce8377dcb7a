import EmergentFlow.Lib.Decimal
import EmergentFlow.Ui.ExtractSound
import EmergentFlow.Ui.ResultCard

/-!
# Ui — StoreLaw

The graph store keeps the IR valid: in every run of an editor whose connections
run from OUT to IN ports, whose pastes are copies and whose loads are graphs that
the structural checks accept, the graph of every state is accepted, at every level
of nesting, exactly when every action fits the state it meets.
-/

namespace EmergentFlow.Canvas

variable {Sub : Type} {ok : Sub → Prop} {host : Host Sub} {s : GraphStore Sub}

/-! ## The editor -/

/-- The store, and the nodes that were copied so far (`ui/src/canvas/Canvas.tsx`
keeps the last of them on its clipboard). -/
structure Editor (Sub : Type) where
  store : GraphStore Sub := .new
  copied : List (NodeModel Sub) := []

inductive Gesture (Sub : Type) where
  | copy (nodeIds : List String)
  | act (a : Action Sub)

def Editor.step (host : Host Sub) (e : Editor Sub) : Gesture Sub → Editor Sub
  | .copy nodeIds => { e with copied := e.copied ++ e.store.members nodeIds }
  | .act a => { e with store := act host e.store a }

/-- What an editor hands to the store: ids that are minted are new, a connection
runs from an OUT port to an IN port, what is pasted was copied and what is loaded
is accepted. -/
def Editor.Admits (ok : Sub → Prop) (e : Editor Sub) : Gesture Sub → Prop
  | .act (.addNodeFromSpec _ _ nodeId _) => e.store.nodes.get? nodeId = none
  | .act (.connect source target _) =>
      e.store.skeleton.direction source = some .OUT ∧ e.store.skeleton.direction target = some .IN
  | .act (.pasteNodes models nodeIds _) => (∀ model ∈ models, model ∈ e.copied) ∧
      Function.Injective nodeIds ∧ ∀ i, e.store.nodes.get? (nodeIds i) = none
  | .act (.groupSelection _ groupId) => e.store.nodes.get? groupId = none
  | .act (.addCalloutAroundSelection _ calloutId) => e.store.nodes.get? calloutId = none
  | .act (.createResultCardForSelection _ cardId portIds edgeIds) =>
      e.store.nodes.get? cardId = none ∧ Function.Injective portIds ∧
        Function.Injective edgeIds ∧ ∀ i, e.store.edges.get? (edgeIds i) = none
  | .act (.extractToComposite _ compositeId inPortIds outPortIds) =>
      e.store.nodes.get? compositeId = none ∧ Function.Injective inPortIds ∧
        Function.Injective outPortIds ∧ ∀ i j, inPortIds i ≠ outPortIds j
  | .act (.loadIR graph _) => graph.Accepted ok
  | .act (.loadModel model _) => (toIR model).Accepted ok
  | .act (.groupNodes _ _ groupId) => e.store.nodes.get? groupId = none
  | _ => True

/-- The actions that not every state is fit for. -/
def Editor.Fits (host : Host Sub) (e : Editor Sub) : Gesture Sub → Prop
  | .act (.pasteNodes models nodeIds _) => PasteFits e.store models nodeIds
  | .act (.createResultCardForSelection nodeIds _ _ _) => CardFits host e.store nodeIds
  | .act (.ungroupSelection nodeIds) => UngroupFits e.store nodeIds
  | .act (.extractToComposite nodeIds _ _ _) => (e.store.selected nodeIds).length < 2 ∨
      SelectionFits e.store (e.store.selected nodeIds)
  | .act (.groupNodes nodeIds _ _) =>
      nodeIds.length < 2 ∨ ∀ id ∈ nodeIds, e.store.nodes.get? id = none
  | _ => True

/-! ## One step -/

theorem isSome_of_mem_selected {nodeIds : List String} {id : String}
    (h : id ∈ s.selected nodeIds) : (s.nodes.get? id).isSome := by
  simpa using (List.mem_filter.mp h).2

theorem sound_extractToComposite_iff (hs : s.toCanvasModel.Sound ok)
    (hinner : ∀ graph, graph.Accepted ok → ok (host.inner graph)) {nodeIds : List String}
    {compositeId : String} {inPortIds outPortIds : Nat → String}
    (hnew : s.nodes.get? compositeId = none) (hin : Function.Injective inPortIds)
    (hout : Function.Injective outPortIds) (hapart : ∀ i j, inPortIds i ≠ outPortIds j) :
    (s.extractToComposite host nodeIds compositeId inPortIds outPortIds).toCanvasModel.Sound ok ↔
      (s.selected nodeIds).length < 2 ∨ SelectionFits s (s.selected nodeIds) := by
  rw [extractToComposite_eq]
  by_cases hfew : (s.selected nodeIds).length < 2
  · rw [if_pos hfew]
    exact iff_of_true hs (.inl hfew)
  · rw [if_neg hfew, or_iff_right hfew]
    exact sound_extracted_iff hs hinner (fun _ => isSome_of_mem_selected) hnew hin hout hapart

variable (host) in
/-- What an action makes of a sound model is sound when the action fits. -/
theorem sound_act_iff (hinner : ∀ graph, graph.Accepted ok → ok (host.inner graph)) {e : Editor Sub}
    (hs : e.store.toCanvasModel.Sound ok)
    (hcopied : ∀ node ∈ e.copied, ∀ sub, node.subgraph.join = some sub → ok sub) (a : Action Sub)
    (hadmits : e.Admits ok (.act a)) (hundo : a ≠ .undo) (hredo : a ≠ .redo) :
    (act host e.store a).toCanvasModel.Sound ok ↔ e.Fits host (.act a) := by
  cases a with
  | pushHistory txn => exact iff_of_true hs trivial
  | addNodeFromSpec spec position nodeId portIds =>
      exact iff_of_true (sound_addNodeFromSpec hs hadmits) trivial
  | removeNode nodeId => exact iff_of_true (sound_removeNode hs) trivial
  | moveNode nodeId position =>
      refine iff_of_true ?_ trivial
      rw [act, CanvasModel.Sound, skeleton_moveNode]
      exact hs
  | endNodeDrag => exact iff_of_true hs trivial
  | setParam nodeId paramName value =>
      refine iff_of_true ?_ trivial
      rw [act, CanvasModel.Sound, skeleton_setParam]
      exact hs
  | setParamRef nodeId paramName ref =>
      refine iff_of_true ?_ trivial
      rw [act, CanvasModel.Sound, skeleton_setParamRef]
      exact hs
  | connect source target edgeId =>
      exact iff_of_true (sound_connect hs hadmits.1 hadmits.2) trivial
  | pasteNodes models nodeIds portIds =>
      obtain ⟨hmodels, hdistinct, hnew⟩ := hadmits
      exact sound_pasteNodes_iff hs (fun model h => hcopied model (hmodels model h)) hdistinct hnew
  | groupSelection nodeIds groupId =>
      exact iff_of_true (sound_groupSelection hs hadmits) trivial
  | addCalloutAroundSelection nodeIds calloutId =>
      exact iff_of_true (sound_addCallout hs hadmits) trivial
  | createResultCardForSelection nodeIds cardId portIds edgeIds =>
      obtain ⟨hcard, hports, hedges, hnew⟩ := hadmits
      exact sound_createResultCard_iff hs hcard hports hedges hnew
  | ungroupSelection nodeIds => exact sound_ungroupSelection_iff hs
  | moveGroup groupId position =>
      refine iff_of_true ?_ trivial
      rw [act, CanvasModel.Sound, skeleton_moveGroup hs]
      exact hs
  | extractToComposite nodeIds compositeId inPortIds outPortIds =>
      obtain ⟨hnew, hin, hout, hapart⟩ := hadmits
      exact sound_extractToComposite_iff hs hinner hnew hin hout hapart
  | removeEdge edgeId => exact iff_of_true (sound_removeEdge hs) trivial
  | loadIR graph reflow => exact iff_of_true (sound_loadIR hadmits) trivial
  | loadModel model reflow =>
      exact iff_of_true (sound_loadModel (accepted_toIR_iff.mp hadmits)) trivial
  | tidyLayout => exact iff_of_true (hs.moved (frame_placed _ _) rfl rfl) trivial
  | expandLayout => exact iff_of_true (hs.moved (frame_placed _ _) rfl rfl) trivial
  | reset => exact iff_of_true sound_emptyGraph trivial
  | undo => exact absurd rfl hundo
  | redo => exact absurd rfl hredo
  | setName name => exact iff_of_true hs trivial
  | addGraphParam => exact iff_of_true (hs.set_param rfl rfl rfl rfl) trivial
  | setGraphParamValue name value =>
      exact iff_of_true (sound_updateGraphParam hs fun _ => rfl) trivial
  | setGraphParamType name typeToken =>
      exact iff_of_true (sound_updateGraphParam hs fun _ => rfl) trivial
  | setGraphParamDescription name description =>
      exact iff_of_true (sound_updateGraphParam hs fun _ => rfl) trivial
  | removeGraphParam name => exact iff_of_true (sound_removeGraphParam hs) trivial
  | groupNodes nodeIds groupName groupId => exact sound_groupNodes_iff hs hadmits
  | ungroupNodes groupId => exact iff_of_true (sound_ungroupNodes hs) trivial
  | setGroupMeta groupId patch => exact iff_of_true (sound_setGroupMeta hs) trivial

/-! ## Runs -/

/-- Every version of the model is sound, and so is what is inside the copies. -/
structure Editor.Inv (ok : Sub → Prop) (e : Editor Sub) : Prop where
  normal : e.store.Normal
  versions : e.store.view.All (CanvasModel.Sound ok)
  copied : ∀ node ∈ e.copied, ∀ sub, node.subgraph.join = some sub → ok sub

theorem Editor.Inv.start : (({} : Editor Sub)).Inv ok :=
  ⟨normal_new, ⟨nofun, sound_emptyGraph, nofun⟩, nofun⟩

/-- The versions kept after an action that leaves a sound model are sound. -/
theorem Editor.Inv.act {e : Editor Sub} (h : e.Inv ok) {a : Action Sub}
    (hs : a ≠ .undo → a ≠ .redo → (Canvas.act host e.store a).toCanvasModel.Sound ok) :
    (e.step host (.act a)).Inv ok := by
  refine ⟨h.normal.act a, ?_, h.copied⟩
  show (Canvas.act host e.store a).view.All _
  rw [act_refines host h.normal.present a]
  apply h.versions.step
  by_cases hundo : a = .undo
  · subst hundo
    trivial
  by_cases hredo : a = .redo
  · subst hredo
    trivial
  have hsound := hs hundo hredo
  rw [GraphStore.op]
  cases e.store.effect host a with
  | undone => trivial
  | redone => trivial
  | kept => exact hsound
  | amended => exact hsound
  | recorded => exact hsound
  | cleared => exact hsound

theorem Editor.Inv.copy {e : Editor Sub} (h : e.Inv ok) (nodeIds : List String) :
    (e.step host (.copy nodeIds)).Inv ok := by
  refine ⟨h.normal, h.versions, ?_⟩
  intro node hnode
  rcases List.mem_append.mp hnode with hnode | hnode
  · exact h.copied node hnode
  · obtain ⟨id, -, hget⟩ := List.mem_filterMap.mp hnode
    intro sub hsub
    exact Skeleton.Sound.inner h.versions.present
      (CanvasModel.node_eq_some.mpr ⟨node, hget, rfl⟩) hsub

/-- A step that leaves a sound model keeps the invariant. -/
theorem Editor.Inv.step {e : Editor Sub} (h : e.Inv ok) {g : Gesture Sub}
    (hs : (e.step host g).store.toCanvasModel.Sound ok) : (e.step host g).Inv ok := by
  cases g with
  | copy nodeIds => exact h.copy nodeIds
  | act a => exact h.act fun _ _ => hs

theorem Editor.Inv.step_iff (hinner : ∀ graph, graph.Accepted ok → ok (host.inner graph))
    {e : Editor Sub} (h : e.Inv ok) (g : Gesture Sub) (hadmits : e.Admits ok g) :
    (e.step host g).Inv ok ↔ e.Fits host g := by
  cases g with
  | copy nodeIds => exact iff_of_true (h.copy nodeIds) trivial
  | act a =>
      by_cases hundo : a = .undo
      · subst hundo
        exact iff_of_true (h.act fun hne _ => absurd rfl hne) trivial
      by_cases hredo : a = .redo
      · subst hredo
        exact iff_of_true (h.act fun _ hne => absurd rfl hne) trivial
      rw [← sound_act_iff host hinner h.versions.present h.copied a hadmits hundo hredo]
      exact ⟨fun hnext => hnext.versions.present, fun hs => h.act fun _ _ => hs⟩

/-- In every state of a run the graph is accepted exactly when every gesture of
the run fits the state it meets. -/
theorem accepted_run_iff (hinner : ∀ graph, graph.Accepted ok → ok (host.inner graph))
    {l : List (Gesture Sub)}
    (hadmits : Runs.AllSteps (Editor.step host) (Editor.Admits ok) {} l) :
    (∀ pre post, l = pre ++ post →
      (toIR (Runs.run (Editor.step host) {} pre).store.toCanvasModel).Accepted ok) ↔
      Runs.AllSteps (Editor.step host) (Editor.Fits host) {} l := by
  rw [← Runs.AllSteps.exact_within Editor.Inv.start hadmits
    fun e g h hg => h.step_iff hinner g hg]
  constructor
  · intro h pre
    induction pre using List.reverseRecOn with
    | nil => exact fun _ _ => Editor.Inv.start
    | append_singleton pre g ih =>
        intro post hsplit
        have hnext := accepted_toIR_iff.mp (h (pre ++ [g]) post hsplit)
        rw [Runs.run_concat] at hnext ⊢
        exact (ih (g :: post) (by rw [hsplit]; simp)).step hnext
  · exact fun h pre post hsplit => accepted_toIR_iff.mpr (h pre post hsplit).versions.present

/-- The host of an editor of graphs nested to any depth. -/
def Host.nesting (host : Host GraphDocument) : Host GraphDocument :=
  { host with inner := IRGraph.inner }

def plain_host : Host GraphDocument where
  layered _ _ _ := {}
  expanded _ _ _ := {}
  separated _ _ := {}
  inner := IRGraph.inner
  catalog := []
  serializeBlocks _ := ""

def plain_spec : CatalogNode where
  type := "data.load_csv"
  label := "Load CSV"
  paradigm := "functional"
  ports := []
  params := []

/-- A node of the group `g`. -/
def grouped_node : NodeModel GraphDocument where
  id := "a"
  type := "data.load_csv"
  label := some "Load CSV"
  paradigm := .FUNCTIONAL
  params := []
  ports := []
  position := {}
  groupId := some (some "g")

/-- Two nodes are grouped, one is copied, the group is dissolved, and the copy pasted. -/
def paste_after_ungroup : List (Gesture GraphDocument) := [
  .act (.addNodeFromSpec plain_spec {} "a" fun _ => ""),
  .act (.addNodeFromSpec plain_spec {} "b" fun _ => ""),
  .act (.groupSelection ["a", "b"] "g"),
  .copy ["a"],
  .act (.ungroupSelection ["g"]),
  .act (.pasteNodes [grouped_node] (fun i => "p" ++ toString i) fun _ _ => "")]

end EmergentFlow.Canvas
