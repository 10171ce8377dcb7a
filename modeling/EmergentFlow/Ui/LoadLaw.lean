import EmergentFlow.Lib.Runs
import EmergentFlow.Ui.GraphStore

/-!
# Ui — LoadLaw

What loading a document leaves in the store, and what the store then writes. The
mappers lose nothing of a document but its positions and compatibility notes;
loading sets the members that `fromIR` fills in, and leaves the others as they
were.
-/

namespace EmergentFlow

variable {Sub : Type}

/-- The graph without what the canvas is free to change. -/
def Graph.bare (g : Graph Sub) : Graph Sub :=
  { g with
    nodes := g.nodes.mapValues fun _ node => { node with position := {} }
    edges := g.edges.mapValues fun _ edge => { edge with type_compatible := none } }

theorem Graph.ext_members {g g' : Graph Sub} (hschema : g.schema_version = g'.schema_version)
    (hparadigm : g.paradigm = g'.paradigm) (hname : g.name = g'.name) (hnodes : g.nodes = g'.nodes)
    (hedges : g.edges = g'.edges) (hparams : g.params = g'.params) : g = g' := by
  cases g
  cases g'
  simp_all

namespace Canvas

/-! ## There and back -/

theorem filled_paramToIR_fromIR (p : IRParam) : (paramToIR (paramFromIR p)).filled = p.filled := rfl

/-- A node comes back as it was, but for where it is. -/
theorem filled_nodeToIR_fromIR (node : IRNode Sub) (position : Position) :
    (nodeToIR { nodeFromIR node with position }).filled = { node.filled with position } := by
  have hparams : ∀ ps : List IRParam,
      ((ps.map paramFromIR).map paramToIR).map (·.filled) = ps.map (·.filled) := fun ps => by
    simp only [List.map_map]
    rfl
  have hports : ∀ ps : List IRPort,
      ((ps.map portFromIR).map portToIR).map (·.filled) = ps.map (·.filled) := fun ps => by
    simp only [List.map_map]
    rfl
  have hlabel : (node.label.join.map some).join = node.label.join := by
    cases node.label.join <;> rfl
  simp only [nodeToIR, nodeFromIR, IRNode.filled, Option.getD_some, hparams, hports, hlabel,
    Option.join_some, IRPosition.filled]

theorem filled_edgeToIR_fromIR (edge : IREdge) : (edgeToIR (edgeFromIR edge)).filled =
    { edge.filled with type_compatible := none } := rfl

/-! ## What is loaded -/

section Load

variable (host : Host Sub) (s s' : GraphStore Sub) (graph : IRGraph Sub) (reflow : Bool)

theorem loadIR_nodes : ∃ position : String → Position, (s.loadIR host graph reflow).nodes =
    placed ((graph.nodes.getD .empty).mapValues fun _ node => nodeFromIR node) position := by
  cases reflow with
  | true => exact ⟨host.layered (fromIR graph).nodes (fromIR graph).edges, rfl⟩
  | false => exact ⟨host.separated (fromIR graph).nodes, rfl⟩

/-- What is written after loading is what was loaded, under a name and a schema
version that may be older. -/
theorem bare_toIR_loadIR : (toIR (s.loadIR host graph reflow).toCanvasModel).filled.bare =
    { graph.filled.bare with
      name := graph.name.join.or s.name
      schema_version := (graph.schema_version.or s.schemaVersion).getD 2 } := by
  obtain ⟨position, hnodes⟩ := loadIR_nodes host s graph reflow
  have hname : ((graph.name.join.or s.name).map some).join = graph.name.join.or s.name := by
    cases graph.name.join.or s.name <;> rfl
  have hparams : ((graph.params.map fun params => params.mapValues fun _ param =>
      paramFromIR param).map fun params => params.mapValues fun _ param => paramToIR param).getD
        .empty = (graph.params.getD .empty).mapValues fun _ param =>
          paramToIR (paramFromIR param) := by
    cases graph.params with
    | none => rfl
    | some params =>
        simp only [Option.map_some, Option.getD_some, Dict.mapValues_mapValues]
  refine Graph.ext_members rfl rfl hname ?_ ?_ ?_
  · show ((((s.loadIR host graph reflow).nodes.mapValues fun _ node => nodeToIR node).mapValues
      fun _ node => node.filled).mapValues fun _ node => { node with position := {} }) = _
    rw [hnodes]
    simp only [placed, Dict.mapValues_mapValues, filled_nodeToIR_fromIR, IRGraph.filled, Graph.bare]
  · show (((((graph.edges.getD .empty).mapValues fun _ edge => edgeFromIR edge).mapValues
      fun _ edge => edgeToIR edge).mapValues fun _ edge => edge.filled).mapValues
        fun _ edge => { edge with type_compatible := none }) = _
    simp only [Dict.mapValues_mapValues, filled_edgeToIR_fromIR, IRGraph.filled, Graph.bare]
  · have hfilled := congrArg (Dict.mapValues fun _ (param : IRParam) => param.filled) hparams
    rw [Dict.mapValues_mapValues] at hfilled
    simp only [filled_paramToIR_fromIR] at hfilled
    exact hfilled

end Load

/-! ## Groups that are shown -/

/-- The nodes that name the group. -/
def IRGraph.named (graph : IRGraph Sub) (gid : String) : List (IRNode Sub) :=
  (graph.nodes.getD .empty).values.filter (·.group_id.join = some gid)

theorem get?_addGroupMember (members : Dict String (List String)) (node : IRNode Sub)
    (gid : String) : (addGroupMember members node).get? gid =
      if gid ≠ "" ∧ node.group_id.join = some gid then
        some ((members.get? gid).getD [] ++ [node.id.getD ""])
      else members.get? gid := by
  rw [addGroupMember]
  cases hgroup : node.group_id.join with
  | none => simp
  | some group =>
      by_cases hempty : group = ""
      · subst hempty
        simp only [if_pos]
        split
        · rename_i h
          exact absurd (Option.some.inj h.2).symm h.1
        · rfl
      · by_cases heq : gid = group
        · subst heq
          simp [hempty]
        · have hne : ¬ (gid ≠ "" ∧ some group = some gid) := fun h =>
            heq (Option.some.inj h.2).symm
          simp only [if_neg hempty, if_neg hne, Dict.get?_set_ne _ _ (Ne.symm heq)]

/-- The members of a group are the nodes that name it. -/
theorem getD_groupMemberIds (graph : IRGraph Sub) {gid : String} (hgid : gid ≠ "") :
    ((groupMemberIds graph).get? gid).getD [] = (graph.named gid).map (·.id.getD "") := by
  rw [groupMemberIds, IRGraph.named]
  induction (graph.nodes.getD .empty).values using List.reverseRecOn with
  | nil => rfl
  | append_singleton nodes node ih =>
      rw [List.foldl_append, List.foldl_cons, List.foldl_nil, get?_addGroupMember,
        List.filter_append, List.filter_singleton, List.map_append, ← ih]
      by_cases h : node.group_id.join = some gid
      · simp [hgid, h]
      · simp [h]

/-- No group goes by the empty id. -/
theorem get?_groupMemberIds_empty (graph : IRGraph Sub) :
    (groupMemberIds graph).get? "" = none := by
  rw [groupMemberIds]
  induction (graph.nodes.getD .empty).values using List.reverseRecOn with
  | nil => rfl
  | append_singleton nodes node ih =>
      rw [List.foldl_append, List.foldl_cons, List.foldl_nil, get?_addGroupMember]
      simpa using ih

theorem keys_addGroupMeta (nodes : Dict String (NodeModel Sub))
    (groups : List (String × List String)) (groupMeta : Dict String GroupMeta) :
    (groups.foldl (addGroupMeta nodes) groupMeta).keys ≠ [] ↔ groupMeta.keys ≠ [] ∨
      ∃ group ∈ groups, 2 ≤ group.2.length ∧
        (group.2.filterMap fun id => (nodes.get? id).map (·.position)) ≠ [] := by
  induction groups generalizing groupMeta with
  | nil => simp
  | cons group groups ih =>
      rw [List.foldl_cons, ih]
      simp only [List.exists_mem_cons_iff, ← or_assoc]
      refine or_congr ?_ Iff.rfl
      rw [addGroupMeta]
      by_cases hskip : group.2.length < 2 ∨
          (group.2.filterMap fun id => (nodes.get? id).map (·.position)) = []
      · rw [if_pos hskip]
        refine ⟨.inl, fun h => h.resolve_right fun hshown => ?_⟩
        rcases hskip with hshort | hnone
        · omega
        · exact hshown.2 hnone
      · rw [if_neg hskip]
        rw [not_or, not_lt] at hskip
        refine ⟨fun _ => .inr hskip, fun _ hnil => ?_⟩
        have hmem := iff_of_eq (congrArg (group.1 ∈ ·) hnil)
        simp [Dict.mem_keys_set] at hmem

/-- The canvas shows a group that two nodes name. -/
theorem groupMeta_fromIR_iff {graph : IRGraph Sub} (hv : graph.filled.Valid) :
    (fromIR graph).groupMeta ≠ none ↔ ∃ gid ≠ "", 2 ≤ (graph.named gid).length := by
  have hshown : (fromIR graph).groupMeta ≠ none ↔
      (groupMetaFromIR graph (fromIR graph).nodes).keys ≠ [] := by
    simp [fromIR]
  rw [hshown, groupMetaFromIR, keys_addGroupMeta]
  simp only [Dict.keys, Dict.empty, List.map_nil, ne_eq, not_true_eq_false, false_or]
  constructor
  · rintro ⟨⟨gid, ids⟩, hmem, hlength, -⟩
    have hget := (Dict.mem_entries_iff _).mp hmem
    have hgid : gid ≠ "" := by
      rintro rfl
      rw [get?_groupMemberIds_empty] at hget
      cases hget
    have hids := getD_groupMemberIds graph hgid
    rw [hget, Option.getD_some] at hids
    exact ⟨gid, hgid, by simpa [hids] using hlength⟩
  · rintro ⟨gid, hgid, hlength⟩
    have hids := getD_groupMemberIds graph hgid
    obtain ⟨node, hnode⟩ := List.exists_mem_of_length_pos (by omega : 0 < (graph.named gid).length)
    cases hget : (groupMemberIds graph).get? gid with
    | none =>
        rw [hget, Option.getD_none, eq_comm, List.map_eq_nil_iff] at hids
        rw [hids] at hnode
        cases hnode
    | some ids =>
        rw [hget, Option.getD_some] at hids
        subst hids
        refine ⟨(gid, _), (Dict.mem_entries_iff _).mpr hget, by simpa using hlength, ?_⟩
        obtain ⟨key, hkey⟩ := (Dict.mem_values_iff _).mp (List.mem_of_mem_filter hnode)
        have hfilled : graph.filled.nodes.get? key = some node.filled := by
          simp [IRGraph.filled, Dict.get?_mapValues, hkey]
        have hid : node.id.getD "" = key := hv.node_id hfilled
        have hfound : (fromIR graph).nodes.get? (node.id.getD "") = some (nodeFromIR node) := by
          simp [fromIR, Dict.get?_mapValues, hid, hkey]
        -- a member that is named has a node, so the group has a place
        have hposition : (nodeFromIR node).position ∈
            ((graph.named gid).map (·.id.getD "")).filterMap
              fun id => ((fromIR graph).nodes.get? id).map (·.position) := by
          refine List.mem_filterMap.mpr ⟨node.id.getD "", List.mem_map_of_mem hnode, ?_⟩
          rw [hfound]
          rfl
        exact List.ne_nil_of_mem hposition

/-! ## The law -/

/-- The document says all that loading sets. -/
structure IRGraph.SelfContained (graph : IRGraph Sub) : Prop where
  titled : graph.name.join ≠ none
  versioned : graph.schema_version ≠ none
  grouped : ∃ gid ≠ "", 2 ≤ (graph.named gid).length

/-- After loading, the model is one that the document alone decides, and what is
written is the document. -/
structure LoadsAlone (host : Host Sub) (graph : IRGraph Sub) : Prop where
  decided : ∀ (s s' : GraphStore Sub) reflow,
    (s.loadIR host graph reflow).toCanvasModel = (s'.loadIR host graph reflow).toCanvasModel
  written : ∀ (s : GraphStore Sub) reflow,
    (toIR (s.loadIR host graph reflow).toCanvasModel).filled.bare = graph.filled.bare

/-- When a document is loaded alone, and what else is left of the store before. -/
structure LoadLaw (host : Host Sub) (graph : IRGraph Sub) : Prop where
  alone : LoadsAlone host graph ↔ graph.SelfContained
  decided : ∀ (s s' : GraphStore Sub) reflow,
    (s.loadIR host graph reflow).toCanvasModel = (s'.loadIR host graph reflow).toCanvasModel ↔
      (graph.name.join = none → s.name = s'.name) ∧
      (graph.schema_version = none → s.schemaVersion = s'.schemaVersion) ∧
      ((¬ ∃ gid ≠ "", 2 ≤ (graph.named gid).length) → s.groupMeta = s'.groupMeta)
  written : ∀ (s : GraphStore Sub) reflow,
    (toIR (s.loadIR host graph reflow).toCanvasModel).filled.bare = graph.filled.bare ↔
      (graph.name.join = none → s.name = none) ∧
      (graph.schema_version = none → s.schemaVersion.getD 2 = 2)

theorem or_eq_or_iff {α : Type} {a b c : Option α} : a.or b = a.or c ↔ (a = none → b = c) := by
  cases a <;> simp

theorem loadIR_decided (host : Host Sub) {graph : IRGraph Sub} (hv : graph.filled.Valid)
    (s s' : GraphStore Sub) (reflow : Bool) :
    (s.loadIR host graph reflow).toCanvasModel = (s'.loadIR host graph reflow).toCanvasModel ↔
      (graph.name.join = none → s.name = s'.name) ∧
      (graph.schema_version = none → s.schemaVersion = s'.schemaVersion) ∧
      ((¬ ∃ gid ≠ "", 2 ≤ (graph.named gid).length) → s.groupMeta = s'.groupMeta) := by
  have hgroups : (¬ ∃ gid ≠ "", 2 ≤ (graph.named gid).length) ↔
      (fromIR graph).groupMeta = none := by
    rw [← groupMeta_fromIR_iff hv, ne_eq, not_not]
  rw [hgroups, ← or_eq_or_iff, ← or_eq_or_iff, ← or_eq_or_iff]
  constructor
  · intro h
    exact ⟨congrArg CanvasModel.name h, congrArg CanvasModel.schemaVersion h,
      congrArg CanvasModel.groupMeta h⟩
  · rintro ⟨hname, hschema, hmeta⟩
    have hname' : (fromIR graph).name.or s.name = (fromIR graph).name.or s'.name := hname
    have hschema' : (fromIR graph).schemaVersion.or s.schemaVersion =
        (fromIR graph).schemaVersion.or s'.schemaVersion := hschema
    simp only [GraphStore.loadIR, GraphStore.setModel, GraphStore.pushHistory, hname', hschema',
      hmeta]

theorem loadIR_written (host : Host Sub) (graph : IRGraph Sub) (s : GraphStore Sub)
    (reflow : Bool) :
    (toIR (s.loadIR host graph reflow).toCanvasModel).filled.bare = graph.filled.bare ↔
      (graph.name.join = none → s.name = none) ∧
      (graph.schema_version = none → s.schemaVersion.getD 2 = 2) := by
  have hor : ∀ {a b : Option String}, a.or b = a ↔ (a = none → b = none) := by
    intro a b
    cases a <;> simp
  have hversion : ∀ {a b : Option Nat}, (a.or b).getD 2 = a.getD 2 ↔
      (a = none → b.getD 2 = 2) := by
    intro a b
    cases a <;> simp
  rw [bare_toIR_loadIR, ← hor, ← hversion]
  constructor
  · intro h
    exact ⟨congrArg Graph.name h, congrArg Graph.schema_version h⟩
  · rintro ⟨hname, hschema⟩
    exact Graph.ext_members hschema rfl hname rfl rfl rfl

def still_host : Host Unit where
  layered := fun _ _ _ => {}
  expanded := fun _ _ _ => {}
  separated := fun _ _ => {}
  inner := fun _ => ()
  catalog := []
  serializeBlocks := fun _ => ""

def grouped_document : IRGraph Unit where
  schema_version := some 2
  name := some (some "A")
  nodes := some (((Dict.empty.set "g" { id := some "g", type := "layout.group" }).set
    "a" { id := some "a", type := "t", group_id := some (some "g") }).set
    "b" { id := some "b", type := "t", group_id := some (some "g") })

end Canvas

end EmergentFlow
