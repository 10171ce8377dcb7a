import EmergentFlow.Ui.GraphDocument
import EmergentFlow.Ui.UndoRedo

/-!
# Ui — StoreSound

What each action of the graph store does to the structure of the graph: the moves
and the edits of values keep its skeleton, and every other action keeps a sound
model sound or tells when it does.
-/

namespace EmergentFlow.Canvas

variable {Sub : Type} {ok : Sub → Prop} {host : Host Sub} {s : GraphStore Sub}

/-! ## Sound models -/

/-- The graph of the model is one the structural checks accept. -/
def CanvasModel.Sound (ok : Sub → Prop) (m : CanvasModel Sub) : Prop := m.skeleton.Sound ok

theorem accepted_toIR_iff {m : CanvasModel Sub} : (toIR m).Accepted ok ↔ m.Sound ok := by
  rw [IRGraph.accepted_iff, skeleton_toIR, CanvasModel.Sound]

theorem CanvasModel.node_eq_some {m : CanvasModel Sub} {k : String} {f : NodeFrame Sub} :
    m.skeleton.node k = some f ↔ ∃ node, m.nodes.get? k = some node ∧ node.frame = f :=
  Option.map_eq_some_iff

theorem CanvasModel.node_isSome {m : CanvasModel Sub} {k : String} :
    (m.skeleton.node k).isSome = (m.nodes.get? k).isSome := Option.isSome_map

theorem CanvasModel.node_eq_none {m : CanvasModel Sub} {k : String} :
    m.skeleton.node k = none ↔ m.nodes.get? k = none := Option.map_eq_none_iff

/-- The id of a node is its key. -/
theorem CanvasModel.Sound.id_eq {m : CanvasModel Sub} (hs : m.Sound ok) {k : String}
    {node : NodeModel Sub} (h : m.nodes.get? k = some node) : node.id = k :=
  Skeleton.Sound.node_id hs (CanvasModel.node_eq_some.mpr ⟨node, h, rfl⟩)

/-- The group of a node is there. -/
theorem CanvasModel.Sound.group_isSome {m : CanvasModel Sub} (hs : m.Sound ok) {k gid : String}
    {node : NodeModel Sub} (h : m.nodes.get? k = some node) (hgid : node.groupId.join = some gid) :
    (m.nodes.get? gid).isSome := by
  rw [← CanvasModel.node_isSome]
  exact Skeleton.Sound.group hs (CanvasModel.node_eq_some.mpr ⟨node, h, rfl⟩) hgid

section Frames

variable {m m' : CanvasModel Sub}

/-- Nodes with the same frames, edges and names of params give one skeleton. -/
theorem skeleton_eq (hnode : ∀ k, (m'.nodes.get? k).map (·.frame) = (m.nodes.get? k).map (·.frame))
    (hedge : m'.edges = m.edges) (hparam : m'.params = m.params) : m'.skeleton = m.skeleton := by
  refine Skeleton.ext (funext hnode) ?_ ?_
  · simp only [CanvasModel.skeleton, hedge]
  · simp only [CanvasModel.skeleton, hparam]

theorem frame_mapValues {nodes : Dict String (NodeModel Sub)}
    {f : String → NodeModel Sub → NodeModel Sub} (hf : ∀ k node, (f k node).frame = node.frame)
    (k : String) : ((nodes.mapValues f).get? k).map (·.frame) = (nodes.get? k).map (·.frame) := by
  rw [Dict.get?_mapValues, Option.map_map]
  exact congrArg (Option.map · (nodes.get? k)) (funext (hf k))

theorem frame_placed (nodes : Dict String (NodeModel Sub)) (where_ : String → Position)
    (k : String) : ((placed nodes where_).get? k).map (·.frame) = (nodes.get? k).map (·.frame) := by
  exact frame_mapValues (f := fun id node => { node with position := where_ id })
    (fun _ _ => rfl) k

theorem frame_modify {nodes : Dict String (NodeModel Sub)} {id : String}
    {f : NodeModel Sub → NodeModel Sub} (hf : ∀ node, (f node).frame = node.frame) (k : String) :
    ((nodes.modify id f).get? k).map (·.frame) = (nodes.get? k).map (·.frame) := by
  rw [Dict.get?_modify]
  split
  · rw [Option.map_map]
    exact congrArg (Option.map · (nodes.get? k)) (funext hf)
  · rfl

theorem frame_set {nodes : Dict String (NodeModel Sub)} {id : String} {f : NodeFrame Sub}
    {node : NodeModel Sub} (h : (nodes.get? id).map (·.frame) = some f) (hf : node.frame = f)
    (k : String) : ((nodes.set id node).get? k).map (·.frame) = (nodes.get? k).map (·.frame) := by
  rw [Dict.get?_set]
  split
  · rename_i heq
    rw [← heq, h, Option.map_some, hf]
  · rfl

/-- Nodes are put in the place of nodes with the same frames. -/
theorem frame_foldl_set (nodes : Dict String (NodeModel Sub))
    {g : NodeModel Sub → NodeModel Sub} (hg : ∀ node, (g node).frame = node.frame)
    (l : List (NodeModel Sub)) (hl : ∀ node ∈ l, nodes.get? node.id = some node) (k : String) :
    ((l.foldl (fun nodes node => nodes.set node.id (g node)) nodes).get? k).map (·.frame) =
      (nodes.get? k).map (·.frame) := by
  have hfold : ∀ nodes' : Dict String (NodeModel Sub),
      (∀ k, (nodes'.get? k).map (·.frame) = (nodes.get? k).map (·.frame)) →
        ((l.foldl (fun nodes node => nodes.set node.id (g node)) nodes').get? k).map (·.frame) =
          (nodes.get? k).map (·.frame) := by
    induction l with
    | nil => exact fun nodes' h => h k
    | cons node l ih =>
        intro nodes' h
        apply ih fun node' hnode' => hl node' (List.mem_cons_of_mem _ hnode')
        intro k'
        have hat := h node.id
        rw [hl node List.mem_cons_self] at hat
        rw [frame_set hat (hg node), h]
  exact hfold nodes fun _ => rfl

end Frames

section Edits

variable {txn : String} {f : CanvasModel Sub → CanvasModel Sub}

/-- An action that may do nothing. -/
theorem sound_guarded (hs : s.toCanvasModel.Sound ok) {nothing : Prop} [Decidable nothing]
    (hf : ¬ nothing → (f s.toCanvasModel).Sound ok) :
    (if nothing then s else (s.pushHistory txn).setModel f).toCanvasModel.Sound ok := by
  split
  · exact hs
  · exact hf ‹_›

theorem skeleton_setParam {nodeId name : String} {value : ParamValue} :
    (s.setParam nodeId name value).skeleton = s.skeleton := by
  rw [GraphStore.setParam]
  split
  · rfl
  · exact skeleton_eq (frame_modify fun _ => rfl) rfl rfl

theorem skeleton_setParamRef {nodeId name : String} {ref : Nullable String} :
    (s.setParamRef nodeId name ref).skeleton = s.skeleton := by
  rw [GraphStore.setParamRef]
  split
  · rfl
  · exact skeleton_eq (frame_modify fun _ => rfl) rfl rfl

theorem skeleton_moveNode {nodeId : String} {position : Position} :
    (s.moveNode nodeId position).skeleton = s.skeleton := by
  rw [GraphStore.moveNode]
  split
  · rfl
  · simp only [GraphStore.setModel]
    split <;> exact skeleton_eq (frame_modify fun _ => rfl) rfl rfl

theorem skeleton_moveGroup (hs : s.toCanvasModel.Sound ok) {groupId : String}
    {position : Position} : (s.moveGroup groupId position).skeleton = s.skeleton := by
  have hmoved : ∀ k, ((s.movedGroup groupId position).get? k).map (·.frame) =
      (s.nodes.get? k).map (·.frame) := by
    intro k
    have hmember : ∀ node ∈ s.membersOf groupId, s.nodes.get? node.id = some node := by
      intro node hnode
      obtain ⟨k, hk⟩ := (Dict.mem_values_iff _).mp (List.mem_filter.mp hnode).1
      rwa [hs.id_eq hk]
    have hfold := frame_foldl_set s.nodes (g := fun member => { member with
      position := {
        x := member.position.x +
          (position.x - (GraphStore.computeGroupBounds (s.membersOf groupId)).x)
        y := member.position.y +
          (position.y - (GraphStore.computeGroupBounds (s.membersOf groupId)).y) } })
      (fun _ => rfl) (s.membersOf groupId) hmember
    rw [GraphStore.movedGroup]
    cases hgroup : s.nodes.get? groupId with
    | none => exact hfold k
    | some group =>
        have hat := hfold groupId
        rw [hgroup] at hat
        refine (frame_set hat ?_ k).trans (hfold k)
        rfl
  rw [GraphStore.moveGroup]
  split
  · rfl
  · by_cases htxn : s.lastTxn = some ("move-group:" ++ groupId)
    · simp only [if_pos htxn]
      exact skeleton_eq hmoved rfl rfl
    · simp only [if_neg htxn]
      exact skeleton_eq hmoved rfl rfl

end Edits

/-! ## Nodes that are added -/

section Added

variable {m m' : CanvasModel Sub}

/-- Nodes are added to those that are there, each in a group that is there then. -/
theorem CanvasModel.Sound.add (hs : m.Sound ok)
    (hold : ∀ {k node}, m.nodes.get? k = some node → m'.nodes.get? k = some node)
    (hnew : ∀ {k node}, m'.nodes.get? k = some node → m.nodes.get? k = none → node.id = k ∧
      (∀ gid, node.groupId.join = some gid → (m'.nodes.get? gid).isSome) ∧
      ∀ sub, node.subgraph.join = some sub → ok sub)
    (hedge : m'.edges = m.edges) (hparam : m'.params = m.params) : m'.Sound ok := by
  refine Skeleton.Sound.extend hs ?_ ?_ ?_ ?_
  · intro k f hk
    obtain ⟨node, hnode, rfl⟩ := CanvasModel.node_eq_some.mp hk
    exact CanvasModel.node_eq_some.mpr ⟨node, hold hnode, rfl⟩
  · intro k f hk hnone
    obtain ⟨node, hnode, rfl⟩ := CanvasModel.node_eq_some.mp hk
    obtain ⟨hid, hgroup, hinner⟩ := hnew hnode (CanvasModel.node_eq_none.mp hnone)
    refine ⟨hid, fun gid hgid => ?_, hinner⟩
    rw [CanvasModel.node_isSome]
    exact hgroup gid hgid
  · simp only [CanvasModel.skeleton, hedge]
  · simp only [CanvasModel.skeleton, hparam]

/-- A node in no group is added under a new id. -/
theorem CanvasModel.Sound.set (hs : m.Sound ok) {id : String} {node : NodeModel Sub}
    (hnodes : m'.nodes = m.nodes.set id node) (hedge : m'.edges = m.edges)
    (hparam : m'.params = m.params) (hid : node.id = id) (hnew : m.nodes.get? id = none)
    (hgroup : node.groupId.join = none)
    (hinner : ∀ sub, node.subgraph.join = some sub → ok sub) : m'.Sound ok := by
  refine hs.add ?_ ?_ hedge hparam
  · intro k node' hk
    have hne : id ≠ k := by
      rintro rfl
      cases hnew.symm.trans hk
    rw [hnodes, Dict.get?_set_ne _ _ hne, hk]
  · intro k node' hk hnone
    rw [hnodes, Dict.get?_set] at hk
    split at hk
    · rename_i heq
      cases hk
      refine ⟨hid.trans heq, fun gid hgid => ?_, hinner⟩
      cases hgroup.symm.trans hgid
    · cases hnone.symm.trans hk

/-- Where the nodes stand does not matter. -/
theorem CanvasModel.Sound.moved (hs : m.Sound ok)
    (hnode : ∀ k, (m'.nodes.get? k).map (·.frame) = (m.nodes.get? k).map (·.frame))
    (hedge : m'.edges = m.edges) (hparam : m'.params = m.params) : m'.Sound ok := by
  rw [CanvasModel.Sound, skeleton_eq hnode hedge hparam]
  exact hs

theorem CanvasModel.sound_moved_iff
    (hnode : ∀ k, (m'.nodes.get? k).map (·.frame) = (m.nodes.get? k).map (·.frame))
    (hedge : m'.edges = m.edges) (hparam : m'.params = m.params) : m'.Sound ok ↔ m.Sound ok := by
  rw [CanvasModel.Sound, CanvasModel.Sound, skeleton_eq hnode hedge hparam]

theorem sound_addNodeFromSpec (hs : s.toCanvasModel.Sound ok) {spec : CatalogNode}
    {position : Position} {nodeId : String} {portIds : Nat → String}
    (hnew : s.nodes.get? nodeId = none) :
    (s.addNodeFromSpec host spec position nodeId portIds).toCanvasModel.Sound ok := by
  have hset : CanvasModel.Sound ok { s.toCanvasModel with
      nodes := s.nodes.set nodeId (GraphStore.nodeFromSpec spec position nodeId portIds) } :=
    hs.set rfl rfl rfl rfl hnew rfl nofun
  exact hset.moved (frame_placed _ _) rfl rfl

theorem sound_addCallout (hs : s.toCanvasModel.Sound ok) {nodeIds : List String}
    {calloutId : String} (hnew : s.nodes.get? calloutId = none) :
    (s.addCalloutAroundSelection nodeIds calloutId).toCanvasModel.Sound ok := by
  apply sound_guarded hs
  exact fun _ => hs.set rfl rfl rfl rfl hnew rfl nofun

/-- The pasted copies of nodes, under the ids they get. -/
def cloned (models : List (NodeModel Sub)) (nodeIds : Nat → String)
    (portIds : Nat → Nat → String) : List (NodeModel Sub) :=
  models.mapIdx fun i original => { original with
    id := nodeIds i
    ports := original.ports.mapIdx fun j port => { port with id := portIds i j }
    position := {
      x := original.position.x + PASTE_OFFSET, y := original.position.y + PASTE_OFFSET } }

theorem mem_cloned {models : List (NodeModel Sub)} {nodeIds : Nat → String}
    {portIds : Nat → Nat → String} {node : NodeModel Sub}
    (h : node ∈ cloned models nodeIds portIds) :
    ∃ i original, models[i]? = some original ∧ node.id = nodeIds i ∧
      node.groupId = original.groupId ∧ node.subgraph = original.subgraph := by
  obtain ⟨i, hi, rfl⟩ := List.mem_mapIdx.mp h
  exact ⟨i, models[i], List.getElem?_eq_getElem hi, rfl, rfl, rfl⟩

theorem ids_cloned (models : List (NodeModel Sub)) (nodeIds : Nat → String)
    (portIds : Nat → Nat → String) :
    (cloned models nodeIds portIds).map (·.id) = (List.range models.length).map nodeIds := by
  apply List.ext_getElem
  · simp [cloned]
  · intro i hi hi'
    simp [cloned]

/-- The groups of pasted nodes are there after the paste. -/
def PasteFits (s : GraphStore Sub) (models : List (NodeModel Sub)) (nodeIds : Nat → String) :
    Prop :=
  ∀ model ∈ models, ∀ gid, model.groupId.join = some gid →
    (s.nodes.get? gid).isSome ∨ ∃ i < models.length, nodeIds i = gid

theorem sound_pasteNodes_iff (hs : s.toCanvasModel.Sound ok) {models : List (NodeModel Sub)}
    {nodeIds : Nat → String} {portIds : Nat → Nat → String}
    (hinner : ∀ model ∈ models, ∀ sub, model.subgraph.join = some sub → ok sub)
    (hdistinct : Function.Injective nodeIds) (hnew : ∀ i, s.nodes.get? (nodeIds i) = none) :
    (s.pasteNodes host models nodeIds portIds).toCanvasModel.Sound ok ↔
      PasteFits s models nodeIds := by
  by_cases hmodels : models = []
  · subst hmodels
    exact iff_of_true hs nofun
  · rw [GraphStore.pasteNodes, if_neg hmodels]
    have hids := ids_cloned models nodeIds portIds
    have hget : ∀ k, (s.nodes.merge (·.id) (cloned models nodeIds portIds)).get? k =
        ((cloned models nodeIds portIds).find? (·.id = k)).or (s.nodes.get? k) := by
      refine Dict.get?_merge s.nodes ?_
      rw [hids]
      exact List.nodup_range.map hdistinct
    have hfresh : ∀ {k}, (s.nodes.get? k).isSome →
        (cloned models nodeIds portIds).find? (·.id = k) = none := by
      intro k hk
      rw [Dict.find?_key_eq_none, hids, List.mem_map]
      rintro ⟨i, -, rfl⟩
      rw [hnew] at hk
      cases hk
    -- the nodes after the paste are those there were and the copies
    have hthere : ∀ gid, ((s.nodes.merge (·.id) (cloned models nodeIds portIds)).get? gid).isSome ↔
        (s.nodes.get? gid).isSome ∨ ∃ i < models.length, nodeIds i = gid := by
      intro gid
      rw [hget, Option.isSome_or, Bool.or_eq_true, or_comm, List.find?_isSome]
      refine or_congr Iff.rfl ?_
      have hmem : gid ∈ (cloned models nodeIds portIds).map (·.id) ↔
          ∃ i < models.length, nodeIds i = gid := by
        simp only [hids, List.mem_map, List.mem_range]
      rw [← hmem, List.mem_map]
      simp only [decide_eq_true_eq]
    have hplaced : (((s.pushHistory "pasteNodes").setModel fun m => { m with
        nodes := host.separateOverlappingNodes ((cloned models nodeIds portIds).foldl
          (fun nodes node => nodes.set node.id node) m.nodes) }).toCanvasModel.Sound ok ↔
        CanvasModel.Sound ok { s.toCanvasModel with
          nodes := s.nodes.merge (·.id) (cloned models nodeIds portIds) }) :=
      CanvasModel.sound_moved_iff (frame_placed _ _) rfl rfl
    refine hplaced.trans ⟨fun h model hmodel gid hgid => ?_, fun h => ?_⟩
    · obtain ⟨i, hi, rfl⟩ := List.mem_iff_getElem.mp hmodel
      let copy : NodeModel Sub := { models[i] with
        id := nodeIds i
        ports := models[i].ports.mapIdx fun j port => { port with id := portIds i j }
        position := {
          x := models[i].position.x + PASTE_OFFSET, y := models[i].position.y + PASTE_OFFSET } }
      have hcopy : copy ∈ cloned models nodeIds portIds := List.mem_mapIdx.mpr ⟨i, hi, rfl⟩
      have hfound : (s.nodes.merge (·.id) (cloned models nodeIds portIds)).get? (nodeIds i) =
          some copy := by
        rw [hget, Dict.find?_key _ hcopy, Option.some_or]
        rw [hids]
        exact List.nodup_range.map hdistinct
      exact (hthere gid).mp (CanvasModel.Sound.group_isSome h hfound hgid)
    · refine hs.add ?_ ?_ rfl rfl
      · intro k node hk
        rw [hget, hfresh (Option.isSome_iff_exists.mpr ⟨node, hk⟩), Option.none_or, hk]
      · intro k node hk hnone
        rw [hget, hnone, Option.or_none] at hk
        obtain ⟨i, original, horiginal, -, hgroup, hsub⟩ :=
          mem_cloned (List.mem_of_find?_eq_some hk)
        have hmem := List.mem_of_getElem? horiginal
        refine ⟨by simpa using List.find?_some hk, fun gid hgid => ?_, fun sub hsub' => ?_⟩
        · rw [hgroup] at hgid
          exact (hthere gid).mpr (h original hmem gid hgid)
        · rw [hsub] at hsub'
          exact hinner original hmem sub hsub'

end Added

/-! ## Groups -/

section Groups

variable {m m' : CanvasModel Sub}

/-- Nodes change their group, to one that is there. -/
theorem CanvasModel.Sound.regroup (hs : m.Sound ok)
    (group : String → NodeModel Sub → Nullable String)
    (hnode : ∀ k, m'.nodes.get? k =
      (m.nodes.get? k).map fun node => { node with groupId := group k node })
    (hgroup : ∀ {k node gid}, m.nodes.get? k = some node → (group k node).join = some gid →
      (m.nodes.get? gid).isSome)
    (hedge : m'.edges = m.edges) (hparam : m'.params = m.params) : m'.Sound ok := by
  refine Skeleton.Sound.relabel hs ?_ ?_ ?_ ?_ ?_
  · intro k
    show Option.map _ ((m'.nodes.get? k).map _) = Option.map _ ((m.nodes.get? k).map _)
    rw [hnode, Option.map_map, Option.map_map, Option.map_map]
    rfl
  · simp only [CanvasModel.skeleton, hedge]
  · simp only [CanvasModel.skeleton, hparam]
  · intro k f gid hk hgid
    obtain ⟨node', hnode', rfl⟩ := CanvasModel.node_eq_some.mp hk
    rw [hnode] at hnode'
    obtain ⟨node, hget, rfl⟩ := Option.map_eq_some_iff.mp hnode'
    rw [CanvasModel.node_isSome, hnode, Option.isSome_map]
    exact hgroup hget hgid
  · intro k f sub hk hsub
    obtain ⟨node', hnode', rfl⟩ := CanvasModel.node_eq_some.mp hk
    rw [hnode] at hnode'
    obtain ⟨node, hget, rfl⟩ := Option.map_eq_some_iff.mp hnode'
    exact Skeleton.Sound.inner hs (CanvasModel.node_eq_some.mpr ⟨node, hget, rfl⟩) hsub

theorem get?_joinGroup (nodes : Dict String (NodeModel Sub)) (ids : List String) (groupId : String)
    (k : String) : (GraphStore.joinGroup nodes ids groupId).get? k =
      (nodes.get? k).map fun node =>
        { node with groupId := if k ∈ ids then some (some groupId) else node.groupId } := by
  rw [GraphStore.joinGroup]
  induction ids generalizing nodes with
  | nil => simp
  | cons id ids ih =>
      rw [List.foldl_cons, ih, Dict.get?_modify]
      by_cases hk : id = k
      · subst hk
        simp [Option.map_map, Function.comp_def]
      · simp [hk, Ne.symm hk]

theorem sound_groupSelection (hs : s.toCanvasModel.Sound ok) {nodeIds : List String}
    {groupId : String} (hnew : s.nodes.get? groupId = none) :
    (s.groupSelection nodeIds groupId).toCanvasModel.Sound ok := by
  apply sound_guarded hs
  intro _
  have hset : CanvasModel.Sound ok { s.toCanvasModel with
      nodes := s.nodes.set groupId (GraphStore.layoutNode groupId "layout.group" "Group"
        [text_param "label" "Group", text_param "color" "slate"]
        (GraphStore.corner 40 ((s.members (s.selected nodeIds)).map (·.position)))) } :=
    hs.set rfl rfl rfl rfl hnew rfl nofun
  refine hset.regroup _ (fun k => get?_joinGroup _ _ _ k) ?_ rfl rfl
  intro k node gid hk hgid
  split at hgid
  · cases hgid
    rw [Dict.get?_set_self]
    rfl
  · exact hset.group_isSome hk hgid

/-- `groupNodes` gives nodes a group that is no node. -/
theorem sound_groupNodes_iff (hs : s.toCanvasModel.Sound ok) {nodeIds : List String}
    {groupName : Option String} {groupId : String} (hnew : s.nodes.get? groupId = none) :
    (s.groupNodes nodeIds groupName groupId).toCanvasModel.Sound ok ↔
      nodeIds.length < 2 ∨ ∀ id ∈ nodeIds, s.nodes.get? id = none := by
  rw [GraphStore.groupNodes]
  by_cases hfew : nodeIds.length < 2
  · rw [if_pos hfew]
    exact iff_of_true hs (.inl hfew)
  · rw [if_neg hfew, or_iff_right hfew]
    constructor
    · intro h id hid
      by_contra hthere
      obtain ⟨node, hnode⟩ := Option.ne_none_iff_exists'.mp hthere
      have hjoined := get?_joinGroup s.nodes nodeIds groupId id
      rw [hnode, Option.map_some, if_pos hid] at hjoined
      have hgroup : ((GraphStore.joinGroup s.nodes nodeIds groupId).get? groupId).isSome :=
        CanvasModel.Sound.group_isSome h hjoined rfl
      rw [get?_joinGroup, hnew] at hgroup
      cases hgroup
    · intro h
      refine hs.regroup _ (fun k => get?_joinGroup _ _ _ k) ?_ rfl rfl
      intro k node gid hk hgid
      have hnot : k ∉ nodeIds := fun hmem => by cases (h k hmem).symm.trans hk
      rw [if_neg hnot] at hgid
      exact hs.group_isSome hk hgid

/-- A node leaves its group when the group is gone. -/
theorem release_eq (gone : String → Bool) (node : NodeModel Sub) :
    GraphStore.release gone node = { node with
      groupId := if node.groupId.join.any gone then some none else node.groupId } := by
  rw [GraphStore.release]
  split <;> rfl

theorem join_release {gone : String → Bool} {group : Nullable String} {gid : String} :
    (if group.join.any gone then some none else group : Nullable String).join = some gid ↔
      group.join = some gid ∧ gone gid = false := by
  split
  · rename_i hany
    refine iff_of_false nofun ?_
    rintro ⟨hgid, hgone⟩
    rw [hgid, Option.any_some, hgone] at hany
    cases hany
  · rename_i hany
    refine ⟨fun hgid => ⟨hgid, ?_⟩, (·.1)⟩
    rw [hgid, Option.any_some, Bool.not_eq_true] at hany
    exact hany

/-- Nodes are released from their groups, and then nodes and edges removed. -/
theorem sound_released_iff (hs : m.Sound ok) (gone released : String → Bool)
    (hnode : ∀ k, m'.nodes.get? k =
      if gone k then none else (m.nodes.get? k).map (GraphStore.release released))
    (hedge : ∀ {k e}, m'.edges.get? k = some e → m.edges.get? k = some e)
    (hparam : m'.params = m.params) :
    m'.Sound ok ↔
      (∀ {k node gid}, m.nodes.get? k = some node → gone k = false →
        node.groupId.join = some gid → gone gid = true → released gid = true) ∧
      ∀ {k e}, m'.edges.get? k = some e →
        gone e.source.node_id = false ∧ gone e.target.node_id = false := by
  have hthere : ∀ k, (m'.nodes.get? k).isSome → gone k = false := by
    intro k hk
    rw [hnode] at hk
    by_contra hgone
    rw [if_pos (by simpa using hgone)] at hk
    cases hk
  constructor
  · intro h
    refine ⟨fun {k node gid} hk hstays hgid hgone => ?_, fun {k e} hk => ⟨?_, ?_⟩⟩
    · by_contra hreleased
      have hk' : m'.nodes.get? k = some (GraphStore.release released node) := by
        rw [hnode, hstays, if_neg Bool.false_ne_true, hk, Option.map_some]
      have hgid' : (GraphStore.release released node).groupId.join = some gid := by
        rw [release_eq]
        exact join_release.mpr ⟨hgid, by simpa using hreleased⟩
      rw [hthere gid (CanvasModel.Sound.group_isSome h hk' hgid')] at hgone
      cases hgone
    · have hend := Skeleton.Sound.end_isSome (Skeleton.Sound.source_out h hk)
      rw [CanvasModel.node_isSome] at hend
      exact hthere _ hend
    · have hend := Skeleton.Sound.end_isSome (Skeleton.Sound.target_in h hk)
      rw [CanvasModel.node_isSome] at hend
      exact hthere _ hend
  · rintro ⟨hgroup, hends⟩
    have hreleased : CanvasModel.Sound ok { m with
        nodes := m.nodes.mapValues fun _ node => GraphStore.release released node } := by
      refine hs.regroup (fun _ node =>
        if node.groupId.join.any released then some none else node.groupId) ?_ ?_ rfl rfl
      · intro k
        rw [Dict.get?_mapValues]
        exact congrArg (Option.map · (m.nodes.get? k)) (funext (release_eq released))
      · intro k node gid hk hgid
        exact hs.group_isSome hk (join_release.mp hgid).1
    have hget : ∀ {k node}, m'.nodes.get? k = some node ↔
        (m.nodes.mapValues fun _ node => GraphStore.release released node).get? k = some node ∧
          ¬ gone k = true := by
      intro k node
      rw [hnode, Dict.get?_mapValues]
      cases hgone : gone k with
      | true => simp
      | false => simp
    refine Skeleton.Sound.restrict hreleased (fun k => gone k = true) ?_ ?_ ?_ ?_
    · intro k f
      rw [CanvasModel.node_eq_some, CanvasModel.node_eq_some]
      constructor
      · rintro ⟨node, hk, rfl⟩
        exact ⟨⟨node, (hget.mp hk).1, rfl⟩, (hget.mp hk).2⟩
      · rintro ⟨⟨node, hk, rfl⟩, hgone⟩
        exact ⟨node, hget.mpr ⟨hk, hgone⟩, rfl⟩
    · intro k f gid hk hgid hgone
      obtain ⟨node', hk', rfl⟩ := CanvasModel.node_eq_some.mp hk
      obtain ⟨hk', hstays⟩ := hget.mp hk'
      rw [Dict.get?_mapValues] at hk'
      obtain ⟨node, hnode', rfl⟩ := Option.map_eq_some_iff.mp hk'
      rw [release_eq] at hgid
      obtain ⟨hgid, hnot⟩ := join_release.mp hgid
      rw [hgroup hnode' (by simpa using hstays) hgid hgone] at hnot
      cases hnot
    · intro k e hk
      obtain ⟨hsource, htarget⟩ := hends hk
      exact ⟨hedge hk, by rw [hsource]; exact Bool.false_ne_true,
        by rw [htarget]; exact Bool.false_ne_true⟩
    · simp only [CanvasModel.skeleton, hparam]

theorem sound_removeNode (hs : s.toCanvasModel.Sound ok) {nodeId : String} :
    (s.removeNode nodeId).toCanvasModel.Sound ok := by
  apply sound_guarded hs
  intro _
  refine (sound_released_iff hs (· = nodeId) (· = nodeId) ?_ ?_ ?_).mpr
    ⟨fun _ _ _ hgone => hgone, ?_⟩
  · intro k
    show ((s.nodes.erase nodeId).mapValues _).get? k = _
    rw [Dict.get?_mapValues, Dict.get?_erase]
    by_cases hk : nodeId = k
    · simp [hk]
    · simp [hk, Ne.symm hk]
  · intro k e hk
    exact (Option.filter_eq_some_iff.mp ((Dict.get?_filter _ _ k).symm.trans hk)).1
  · rfl
  · intro k e hk
    simpa using (Option.filter_eq_some_iff.mp ((Dict.get?_filter _ _ k).symm.trans hk)).2

theorem sound_ungroupNodes (hs : s.toCanvasModel.Sound ok) {groupId : String} :
    (s.ungroupNodes groupId).toCanvasModel.Sound ok := by
  refine (sound_released_iff hs (fun _ => false) (· = groupId) ?_ ?_ ?_).mpr ⟨?_, ?_⟩
  · exact fun k => Dict.get?_mapValues _ _ k
  · exact fun hk => hk
  · rfl
  · intro k node gid hk hstays hgid hgone
    cases hgone
  · exact fun _ => ⟨rfl, rfl⟩

/-- No edge ends at a group that is removed, and no node stays in the group `""`,
which nothing is released from. -/
def UngroupFits (s : GraphStore Sub) (nodeIds : List String) : Prop :=
  (∀ {k e}, s.edges.get? k = some e →
    e.source.node_id ∉ s.selectedGroups nodeIds ∧ e.target.node_id ∉ s.selectedGroups nodeIds) ∧
  ("" ∈ s.selectedGroups nodeIds → ∀ {k node}, s.nodes.get? k = some node →
    k ∉ s.selectedGroups nodeIds → node.groupId.join ≠ some "")

theorem sound_ungroupSelection_iff (hs : s.toCanvasModel.Sound ok) {nodeIds : List String} :
    (s.ungroupSelection nodeIds).toCanvasModel.Sound ok ↔ UngroupFits s nodeIds := by
  rw [GraphStore.ungroupSelection]
  by_cases hnone : s.selectedGroups nodeIds = []
  · rw [if_pos hnone]
    refine iff_of_true hs ⟨fun _ => ?_, fun hmem => ?_⟩
    · simp [hnone]
    · simp [hnone] at hmem
  · rw [if_neg hnone]
    refine (sound_released_iff hs (· ∈ s.selectedGroups nodeIds)
      (fun gid => gid ≠ "" ∧ gid ∈ s.selectedGroups nodeIds) ?_ ?_ ?_).trans ⟨?_, ?_⟩
    · intro k
      show ((s.nodes.mapValues _).filter _).get? k = _
      rw [Dict.get?_filter, Dict.get?_mapValues]
      cases s.nodes.get? k with
      | none => simp
      | some node => by_cases hk : k ∈ s.selectedGroups nodeIds <;> simp [hk]
    · exact fun hk => hk
    · rfl
    · rintro ⟨hgroup, hends⟩
      refine ⟨fun hk => by simpa using hends hk, fun hempty k node hk hstays hgid => ?_⟩
      have hreleased := hgroup hk (by simpa using hstays) hgid (by simpa using hempty)
      simp at hreleased
    · rintro ⟨hends, hempty⟩
      refine ⟨fun hk hstays hgid hgone => ?_, fun hk => by simpa using hends hk⟩
      simp only [decide_eq_true_eq, decide_eq_false_iff_not] at hstays hgone ⊢
      refine ⟨?_, hgone⟩
      rintro rfl
      exact hempty hgone hk hstays hgid

end Groups

/-! ## Edges, params and whole graphs -/

section Others

theorem sound_connect (hs : s.toCanvasModel.Sound ok) {source target : EndModel} {edgeId : String}
    (hsource : s.skeleton.direction source = some .OUT)
    (htarget : s.skeleton.direction target = some .IN) :
    (s.connect host source target edgeId).1.toCanvasModel.Sound ok := by
  rw [GraphStore.connect]
  split
  · exact hs
  · have hedges : CanvasModel.Sound ok { s.toCanvasModel with
        edges := s.edges.set edgeId { id := edgeId, source, target } } := by
      refine Skeleton.Sound.rewire hs rfl ?_ rfl
      intro k e hk
      have hk' : (s.edges.set edgeId { id := edgeId, source, target }).get? k = some e := hk
      rw [Dict.get?_set] at hk'
      split at hk'
      · rename_i heq
        cases hk'
        exact .inr ⟨heq, hsource, htarget⟩
      · exact .inl hk'
    exact hedges.moved (frame_placed _ _) rfl rfl

theorem sound_removeEdge (hs : s.toCanvasModel.Sound ok) {edgeId : String} :
    (s.removeEdge edgeId).toCanvasModel.Sound ok := by
  apply sound_guarded hs
  intro _
  refine Skeleton.Sound.rewire hs rfl ?_ rfl
  intro k e hk
  have hk' : (s.edges.erase edgeId).get? k = some e := hk
  rw [Dict.get?_erase] at hk'
  split at hk'
  · cases hk'
  · exact .inl hk'

/-- The params are others, each under its name. -/
theorem CanvasModel.Sound.reparam {m m' : CanvasModel Sub} (hs : m.Sound ok)
    (hnode : m'.nodes = m.nodes) (hedge : m'.edges = m.edges)
    (hparam : ∀ {k p}, (m'.params.getD .empty).get? k = some p → p.name = k) : m'.Sound ok := by
  refine Skeleton.Sound.reparam hs ?_ ?_ ?_
  · simp only [CanvasModel.skeleton, hnode]
  · simp only [CanvasModel.skeleton, hedge]
  · intro k name hk
    obtain ⟨p, hp, rfl⟩ := Option.map_eq_some_iff.mp hk
    exact hparam hp

theorem CanvasModel.Sound.name_eq {m : CanvasModel Sub} (hs : m.Sound ok) {k : String}
    {p : ParamModel} (h : (m.params.getD .empty).get? k = some p) : p.name = k :=
  Skeleton.Sound.param_name hs (congrArg (Option.map ParamModel.name) h)

/-- A param is put under its name. -/
theorem CanvasModel.Sound.set_param {m m' : CanvasModel Sub} (hs : m.Sound ok) {name : String}
    {p : ParamModel} (hparam : m'.params = some ((m.params.getD .empty).set name p))
    (hnode : m'.nodes = m.nodes) (hedge : m'.edges = m.edges) (hp : p.name = name) :
    m'.Sound ok := by
  refine hs.reparam hnode hedge ?_
  intro k q hk
  rw [hparam, Option.getD_some, Dict.get?_set] at hk
  split at hk
  · rename_i heq
    cases hk
    exact hp.trans heq
  · exact hs.name_eq hk

theorem sound_updateGraphParam (hs : s.toCanvasModel.Sound ok) {txn name : String}
    {f : ParamModel → ParamModel} (hf : ∀ p, (f p).name = p.name) :
    (s.updateGraphParam txn name f).toCanvasModel.Sound ok := by
  rw [GraphStore.updateGraphParam]
  split
  · exact hs
  · rename_i existing hget
    exact hs.set_param rfl rfl rfl ((hf existing).trans (hs.name_eq hget))

theorem sound_removeGraphParam (hs : s.toCanvasModel.Sound ok) {name : String} :
    (s.removeGraphParam name).toCanvasModel.Sound ok := by
  apply sound_guarded hs
  intro _
  refine hs.reparam rfl rfl ?_
  intro k p hk
  have hk' : ((s.params.getD .empty).erase name).get? k = some p := hk
  rw [Dict.get?_erase] at hk'
  split at hk'
  · cases hk'
  · exact hs.name_eq hk'

theorem sound_loadIR {graph : IRGraph Sub} {reflow : Bool} (hgraph : graph.Accepted ok) :
    (s.loadIR host graph reflow).toCanvasModel.Sound ok := by
  have hloaded : (fromIR graph).Sound ok := by
    rw [CanvasModel.Sound, skeleton_fromIR]
    exact IRGraph.accepted_iff.mp hgraph
  cases reflow with
  | false => exact hloaded.moved (frame_placed _ _) rfl rfl
  | true => exact hloaded.moved (frame_placed _ _) rfl rfl

theorem sound_loadModel {model : CanvasModel Sub} {reflow : Bool} (hmodel : model.Sound ok) :
    (s.loadModel host model reflow).toCanvasModel.Sound ok := by
  cases reflow with
  | false => exact hmodel.moved (fun _ => rfl) rfl rfl
  | true => exact hmodel.moved (frame_placed _ _) rfl rfl

theorem sound_emptyGraph : (emptyGraph : CanvasModel Sub).Sound ok :=
  ⟨nofun, nofun, nofun, nofun, nofun, nofun, nofun⟩

theorem sound_setGroupMeta (hs : s.toCanvasModel.Sound ok) {groupId : String}
    {patch : GraphStore.GroupMetaPatch} :
    (s.setGroupMeta groupId patch).toCanvasModel.Sound ok := by
  have hpushed : (if patch.label.isSome ∨ patch.color.isSome then s.pushHistory "setGroupMeta"
      else s).toCanvasModel.Sound ok := by
    split <;> exact hs
  rw [GraphStore.setGroupMeta, GraphStore.setModel]
  split
  · exact hpushed
  · exact hpushed

end Others

end EmergentFlow.Canvas
