import EmergentFlow.Ui.StoreSound

/-!
# Ui — ExtractSound

A selection that becomes a composite: its graph is the one inside, and an edge
that crosses the border is led to the boundary port of its inner end. It leaves a
sound graph when every such end has a boundary port and no node that stays is in
a group that leaves.
-/

namespace EmergentFlow.Canvas

variable {Sub : Type} {ok : Sub → Prop} {host : Host Sub} {s : GraphStore Sub}
  {ids : List String} {edge : EdgeModel}

open GraphStore (Extraction)

/-! ## The edges of a selection -/

theorem mem_internalEdges : edge ∈ (s.extraction ids).internalEdges ↔
    edge ∈ s.edges.values ∧ edge.source.node_id ∈ ids ∧ edge.target.node_id ∈ ids := by
  simp [GraphStore.extraction, List.mem_filter]

theorem mem_crossingEdges : edge ∈ (s.extraction ids).crossingEdges ↔
    edge ∈ s.edges.values ∧ (edge.source.node_id ∈ ids ∨ edge.target.node_id ∈ ids) ∧
      ¬ (edge.source.node_id ∈ ids ∧ edge.target.node_id ∈ ids) := by
  simp only [GraphStore.extraction, List.mem_filter, decide_eq_true_eq]

/-- The edge under a key has it as its id, so one id has one edge. -/
theorem CanvasModel.Sound.get?_of_mem {m : CanvasModel Sub} (hs : m.Sound ok)
    (h : edge ∈ m.edges.values) : m.edges.get? edge.id = some edge := by
  obtain ⟨k, hk⟩ := (Dict.mem_values_iff _).mp h
  have hid : edge.id = k := Skeleton.Sound.edge_id hs hk
  rwa [hid]

theorem get?_foldl_erase (edges : Dict String EdgeModel) (l : List EdgeModel) (k : String) :
    (l.foldl (fun edges edge => edges.erase edge.id) edges).get? k =
      if k ∈ l.map (·.id) then none else edges.get? k := by
  induction l generalizing edges with
  | nil => simp
  | cons edge l ih =>
      rw [List.foldl_cons, ih, Dict.get?_erase, List.map_cons]
      by_cases hk : k ∈ l.map (·.id)
      · rw [if_pos hk, if_pos (List.mem_cons_of_mem _ hk)]
      · by_cases hid : edge.id = k
        · simp [hid]
        · simp [hk, hid, Ne.symm hid]

/-- The key of an end in the port lists of a selection. -/
theorem mem_selectionPorts {p : EndModel × PortModel} : p ∈ s.selectionPorts ids ↔
    ∃ id node, id ∈ ids ∧ s.nodes.get? id = some node ∧ p.2 ∈ node.ports ∧
      p.1 = ⟨id, some p.2.id⟩ := by
  rw [GraphStore.selectionPorts, List.mem_flatMap]
  simp only [List.mem_insertionSort]
  constructor
  · rintro ⟨id, hid, hp⟩
    cases hnode : s.nodes.get? id with
    | none => simp [hnode] at hp
    | some node =>
        rw [hnode] at hp
        obtain ⟨port, hport, rfl⟩ := List.mem_map.mp hp
        exact ⟨id, node, hid, hnode, hport, rfl⟩
  · rintro ⟨id, node, hid, hnode, hport, hend⟩
    refine ⟨id, hid, ?_⟩
    rw [hnode]
    exact List.mem_map.mpr ⟨p.2, hport, Prod.ext hend.symm rfl⟩

/-! ## The boundary -/

section Boundary

variable {ports : List (EndModel × PortModel)} {portIds : Nat → String}

theorem get?_boundaryByMember {key pid : String}
    (h : (GraphStore.boundaryByMember ports portIds).get? key = some pid) :
    ∃ i < ports.length, pid = portIds i ∧ key ∈ ports.map (·.1.key) := by
  obtain ⟨i, hi, heq⟩ := List.mem_mapIdx.mp (Dict.mem_of_get?_ofList h)
  obtain ⟨rfl, rfl⟩ := Prod.mk.inj heq
  exact ⟨i, hi, rfl, List.mem_map.mpr ⟨ports[i], List.getElem_mem hi, rfl⟩⟩

theorem exists_boundaryByMember (portIds : Nat → String) {key : String}
    (h : key ∈ ports.map (·.1.key)) :
    ∃ i < ports.length,
      (GraphStore.boundaryByMember ports portIds).get? key = some (portIds i) := by
  have hkeys : key ∈ (ports.mapIdx fun i p => (p.1.key, portIds i)).map Prod.fst := by
    obtain ⟨p, hp, rfl⟩ := List.mem_map.mp h
    obtain ⟨i, hi, rfl⟩ := List.mem_iff_getElem.mp hp
    exact List.mem_map.mpr ⟨_, List.mem_mapIdx.mpr ⟨i, hi, rfl⟩, rfl⟩
  obtain ⟨pid, hpid⟩ := Dict.get?_ofList_of_mem hkeys
  obtain ⟨i, hi, rfl, -⟩ := get?_boundaryByMember hpid
  exact ⟨i, hi, hpid⟩

/-- A port of the boundary has its id and its side. -/
theorem map_boundaryPorts (side : String) (direction : Direction) :
    (GraphStore.boundaryPorts side direction ports portIds).map
        (fun port => (port.id, port.direction)) =
      (List.range ports.length).map fun i => (portIds i, direction) := by
  apply List.ext_getElem
  · simp [GraphStore.boundaryPorts]
  · intro i hi hi'
    simp [GraphStore.boundaryPorts]

end Boundary

/-! ## The graph that is extracted -/

section Extracted

variable {compositeId : String} {inPortIds outPortIds : Nat → String}

/-- The graph inside the composite. -/
def innerGraph (s : GraphStore Sub) (ids : List String) : IRGraph Sub where
  paradigm := some .FUNCTIONAL
  nodes := some (.ofList (ids.filterMap fun id => (s.nodes.get? id).map fun node =>
    (id, nodeToIR { node with groupId := some none })))
  edges := some (.ofList ((s.extraction ids).internalEdges.map fun edge =>
    (edge.id, edgeToIR edge)))

/-- The composite that stands for the selection. -/
def compositeNode (host : Host Sub) (s : GraphStore Sub) (ids : List String)
    (compositeId : String) (inPortIds outPortIds : Nat → String) : NodeModel Sub where
  id := compositeId
  type := "layout.composite"
  label := some "Composite"
  paradigm := .FUNCTIONAL
  params := [text_param "label" "Composite"]
  ports := GraphStore.boundaryPorts "in" .IN (s.extraction ids).danglingIn inPortIds ++
    GraphStore.boundaryPorts "out" .OUT (s.extraction ids).exposedOut outPortIds
  position := GraphStore.corner 40 ((s.members ids).map (·.position))
  groupId := some none
  subgraph := some (some (host.inner (innerGraph s ids)))

/-- An edge that crosses the border, at the port of the composite. -/
def rewired (s : GraphStore Sub) (ids : List String) (compositeId : String)
    (inPortIds outPortIds : Nat → String) (edge : EdgeModel) : EdgeModel :=
  if edge.source.node_id ∈ ids then
    { edge with source := ⟨compositeId, (GraphStore.boundaryByMember
        (s.extraction ids).exposedOut outPortIds).get? edge.source.key⟩ }
  else
    { edge with target := ⟨compositeId, (GraphStore.boundaryByMember
        (s.extraction ids).danglingIn inPortIds).get? edge.target.key⟩ }

/-- The model with the composite in the place of the selection. -/
def extracted (host : Host Sub) (s : GraphStore Sub) (ids : List String) (compositeId : String)
    (inPortIds outPortIds : Nat → String) : CanvasModel Sub :=
  { s.toCanvasModel with
    nodes := (s.nodes.filter fun id _ => id ∉ ids).set compositeId
      (compositeNode host s ids compositeId inPortIds outPortIds)
    edges := (s.extraction ids).crossingEdges.foldl (fun edges edge =>
        edges.set edge.id (rewired s ids compositeId inPortIds outPortIds edge))
      ((s.extraction ids).internalEdges.foldl (fun edges edge => edges.erase edge.id) s.edges) }

theorem extractToComposite_eq {nodeIds : List String} :
    (s.extractToComposite host nodeIds compositeId inPortIds outPortIds).toCanvasModel =
      if (s.selected nodeIds).length < 2 then s.toCanvasModel
      else extracted host s (s.selected nodeIds) compositeId inPortIds outPortIds := by
  rw [GraphStore.extractToComposite]
  split <;> rfl

theorem id_rewired : (rewired s ids compositeId inPortIds outPortIds edge).id = edge.id := by
  rw [rewired]
  split <;> rfl

theorem get?_node_extracted (k : String) :
    (extracted host s ids compositeId inPortIds outPortIds).nodes.get? k =
      if compositeId = k then some (compositeNode host s ids compositeId inPortIds outPortIds)
      else if k ∈ ids then none else s.nodes.get? k := by
  show ((s.nodes.filter _).set _ _).get? k = _
  rw [Dict.get?_set, Dict.get?_filter]
  cases s.nodes.get? k with
  | none => simp
  | some node => by_cases hk : k ∈ ids <;> simp [hk, Option.filter]

/-- Edges inside are gone, those that cross are rewired, the others stay. -/
theorem get?_edge_extracted (hs : s.toCanvasModel.Sound ok) {k : String} {e : EdgeModel} :
    (extracted host s ids compositeId inPortIds outPortIds).edges.get? k = some e ↔
      ∃ edge, s.edges.get? k = some edge ∧
        ((edge.source.node_id ∉ ids ∧ edge.target.node_id ∉ ids ∧ e = edge) ∨
          (edge ∈ (s.extraction ids).crossingEdges ∧
            e = rewired s ids compositeId inPortIds outPortIds edge)) := by
  have hcrossing : ∀ {edge}, edge ∈ (s.extraction ids).crossingEdges →
      s.edges.get? edge.id = some edge :=
    fun h => hs.get?_of_mem (mem_crossingEdges.mp h).1
  have hinternal : ∀ {edge}, edge ∈ (s.extraction ids).internalEdges →
      s.edges.get? edge.id = some edge :=
    fun h => hs.get?_of_mem (mem_internalEdges.mp h).1
  have hnodup : ((s.extraction ids).crossingEdges.map (·.id)).Nodup := by
    have hvalues : (s.edges.values.map (·.id)).Nodup := by
      have hkeys : s.edges.values.map (·.id) = s.edges.keys := by
        rw [Dict.values, Dict.keys, List.map_map]
        apply List.map_congr_left
        intro entry hentry
        exact Skeleton.Sound.edge_id hs ((Dict.mem_entries_iff _).mp hentry)
      rw [hkeys]
      exact s.edges.nodup_keys
    exact hvalues.sublist (List.filter_sublist.map _)
  have hget : (extracted host s ids compositeId inPortIds outPortIds).edges.get? k =
      (((s.extraction ids).crossingEdges.map
        (rewired s ids compositeId inPortIds outPortIds)).find? (·.id = k)).or
          (if k ∈ (s.extraction ids).internalEdges.map (·.id) then none
            else s.edges.get? k) := by
    rw [← get?_foldl_erase, ← Dict.get?_merge, Dict.merge, List.foldl_map]
    · simp only [id_rewired]
      rfl
    · rw [List.map_map]
      exact (congrArg List.Nodup (List.map_congr_left fun _ _ => id_rewired)).mpr hnodup
  rw [hget, Option.or_eq_some_iff]
  constructor
  · rintro (hfound | ⟨hnone, hrest⟩)
    · obtain ⟨edge, hedge, rfl⟩ := List.mem_map.mp (List.mem_of_find?_eq_some hfound)
      have hid : edge.id = k := by simpa [id_rewired] using List.find?_some hfound
      exact ⟨edge, hid ▸ hcrossing hedge, .inr ⟨hedge, rfl⟩⟩
    · split at hrest
      · cases hrest
      · rename_i hinside
        refine ⟨e, hrest, .inl ?_⟩
        have hid : e.id = k := Skeleton.Sound.edge_id hs hrest
        have hvalue : e ∈ s.edges.values := (Dict.mem_values_iff _).mpr ⟨k, hrest⟩
        have hnot_internal : ¬ (e.source.node_id ∈ ids ∧ e.target.node_id ∈ ids) := fun h =>
          hinside (List.mem_map.mpr ⟨e, mem_internalEdges.mpr ⟨hvalue, h⟩, hid⟩)
        have hnot_crossing : ¬ (e.source.node_id ∈ ids ∨ e.target.node_id ∈ ids) := by
          intro h
          have hmem := mem_crossingEdges.mpr ⟨hvalue, h, hnot_internal⟩
          have hnot := List.find?_eq_none.mp hnone _ (List.mem_map_of_mem hmem)
          simp [id_rewired, hid] at hnot
        rw [not_or] at hnot_crossing
        exact ⟨hnot_crossing.1, hnot_crossing.2, rfl⟩
  · rintro ⟨edge, hedge, ⟨hsource, htarget, rfl⟩ | ⟨hcross, rfl⟩⟩
    · have hone : ∀ {edge}, s.edges.get? edge.id = some edge → edge.id = k → edge = e := by
        intro edge hget hid
        rw [hid, hedge] at hget
        exact (Option.some.inj hget).symm
      refine .inr ⟨?_, ?_⟩
      · rw [List.find?_eq_none]
        intro edge' hedge' hid
        obtain ⟨edge, hcross, rfl⟩ := List.mem_map.mp hedge'
        have heq := hone (hcrossing hcross) (by simpa [id_rewired] using hid)
        subst heq
        exact (mem_crossingEdges.mp hcross).2.1.elim hsource htarget
      · rw [if_neg]
        · exact hedge
        · intro hmem
          obtain ⟨edge, hinside, hid⟩ := List.mem_map.mp hmem
          have heq := hone (hinternal hinside) hid
          subst heq
          exact hsource (mem_internalEdges.mp hinside).2.1
    · have hid : edge.id = k := Skeleton.Sound.edge_id hs hedge
      left
      rw [List.find?_map]
      have hfound : (s.extraction ids).crossingEdges.find? (·.id = edge.id) = some edge :=
        Dict.find?_key hnodup hcross
      simp only [Function.comp_def, id_rewired]
      rw [← hid, hfound, Option.map_some]

/-- The nodes inside are those of the selection, in no group. -/
theorem get?_node_innerGraph (k : String) : (innerGraph s ids).skeleton.node k =
    if k ∈ ids then (s.nodes.get? k).map fun node => { node.frame with group := none }
    else none := by
  let entries : List (String × IRNode Sub) := ids.filterMap fun id =>
    (s.nodes.get? id).map fun node => (id, nodeToIR { node with groupId := some none })
  have hmem : ∀ {id irnode}, (id, irnode) ∈ entries → id ∈ ids ∧
      ∃ node, s.nodes.get? id = some node ∧
        irnode = nodeToIR { node with groupId := some none } := by
    intro id irnode h
    obtain ⟨id', hid', hentry⟩ := List.mem_filterMap.mp h
    obtain ⟨node, hnode, heq⟩ := Option.map_eq_some_iff.mp hentry
    obtain ⟨rfl, rfl⟩ := Prod.mk.inj heq
    exact ⟨hid', node, hnode, rfl⟩
  have hframe : ∀ node : NodeModel Sub, (nodeToIR { node with groupId := some none }).frame =
      { node.frame with group := none } := fun node => frame_nodeToIR _
  show Option.map _ ((Dict.ofList entries).get? k) = _
  cases hget : (Dict.ofList entries).get? k with
  | some irnode =>
      obtain ⟨hk, node, hnode, rfl⟩ := hmem (Dict.mem_of_get?_ofList hget)
      rw [if_pos hk, hnode, Option.map_some, Option.map_some, hframe]
  | none =>
      split
      · rename_i hk
        cases hnode : s.nodes.get? k with
        | none => rfl
        | some node =>
            have hkey : k ∈ entries.map Prod.fst := by
              refine List.mem_map.mpr
                ⟨(k, nodeToIR { node with groupId := some none }), ?_, rfl⟩
              refine List.mem_filterMap.mpr ⟨k, hk, ?_⟩
              rw [hnode, Option.map_some]
            obtain ⟨irnode, hirnode⟩ := Dict.get?_ofList_of_mem hkey
            cases hget.symm.trans hirnode
      · rfl

theorem accepted_innerGraph (hs : s.toCanvasModel.Sound ok) :
    (innerGraph s ids).Accepted ok := by
  have hedge : ∀ {k e}, (innerGraph s ids).skeleton.edge k = some e →
      e ∈ (s.extraction ids).internalEdges ∧ e.id = k := by
    intro k e hk
    obtain ⟨ire, hire, rfl⟩ := Option.map_eq_some_iff.mp hk
    obtain ⟨edge, hmem, heq⟩ := List.mem_map.mp (Dict.mem_of_get?_ofList hire)
    obtain ⟨rfl, rfl⟩ := Prod.mk.inj heq
    exact ⟨hmem, rfl⟩
  have hdirection : ∀ {e}, e.node_id ∈ ids →
      (innerGraph s ids).skeleton.direction e = s.skeleton.direction e := by
    intro e he
    apply Skeleton.direction_of_ports
    show _ = Option.map _ ((s.nodes.get? e.node_id).map _)
    rw [get?_node_innerGraph, if_pos he, Option.map_map, Option.map_map]
    rfl
  have hnode : ∀ {k f}, (innerGraph s ids).skeleton.node k = some f →
      ∃ node, s.nodes.get? k = some node ∧ f = { node.frame with group := none } := by
    intro k f hk
    rw [get?_node_innerGraph] at hk
    split at hk
    · obtain ⟨node, hget, rfl⟩ := Option.map_eq_some_iff.mp hk
      exact ⟨node, hget, rfl⟩
    · cases hk
  rw [IRGraph.accepted_iff]
  refine ⟨?_, nofun, fun hk => (hedge hk).2, ?_, ?_, ?_, ?_⟩
  · intro k f hk
    obtain ⟨node, hget, rfl⟩ := hnode hk
    exact hs.id_eq hget
  · intro k e hk
    obtain ⟨hvalue, hsource, -⟩ := mem_internalEdges.mp (hedge hk).1
    rw [hdirection hsource]
    exact Skeleton.Sound.source_out hs (hs.get?_of_mem hvalue)
  · intro k e hk
    obtain ⟨hvalue, -, htarget⟩ := mem_internalEdges.mp (hedge hk).1
    rw [hdirection htarget]
    exact Skeleton.Sound.target_in hs (hs.get?_of_mem hvalue)
  · intro k f gid hk hgid
    obtain ⟨node, -, rfl⟩ := hnode hk
    cases hgid
  · intro k f sub hk hsub
    obtain ⟨node, hget, rfl⟩ := hnode hk
    exact Skeleton.Sound.inner hs (CanvasModel.node_eq_some.mpr ⟨node, hget, rfl⟩) hsub

/-- An end inside has a boundary port when no edge inside is at its key. -/
theorem key_mem_boundary {d : Direction} {bound : List String} {e : EndModel}
    (hend : s.skeleton.direction e = some d) (he : e.node_id ∈ ids) :
    e.key ∈ ((s.selectionPorts ids).filter fun p =>
        p.2.direction = d ∧ p.1.key ∉ bound).map (·.1.key) ↔ e.key ∉ bound := by
  constructor
  · intro h
    obtain ⟨p, hp, hkey⟩ := List.mem_map.mp h
    have hfree : p.2.direction = d ∧ p.1.key ∉ bound := by simpa using (List.mem_filter.mp hp).2
    rw [← hkey]
    exact hfree.2
  · intro h
    obtain ⟨pid, f, hpid, hf, hport⟩ := Skeleton.direction_eq_some.mp hend
    obtain ⟨node, hnode, rfl⟩ := CanvasModel.node_eq_some.mp hf
    obtain ⟨entry, hfound, hdir⟩ := Option.map_eq_some_iff.mp hport
    obtain ⟨port, hlisted, rfl⟩ :=
      List.mem_map.mp (List.mem_reverse.mp (List.mem_of_find?_eq_some hfound))
    have hid : port.id = pid := by simpa using List.find?_some hfound
    have hself : (⟨e.node_id, some port.id⟩ : EndModel) = e := by rw [hid, ← hpid]
    refine List.mem_map.mpr ⟨(e, port), List.mem_filter.mpr ⟨?_, ?_⟩, rfl⟩
    · exact mem_selectionPorts.mpr ⟨e.node_id, node, he, hnode, hlisted, hself.symm⟩
    · exact decide_eq_true ⟨hdir, h⟩

theorem key_mem_exposedOut {e : EndModel} (hend : s.skeleton.direction e = some .OUT)
    (he : e.node_id ∈ ids) : e.key ∈ (s.extraction ids).exposedOut.map (·.1.key) ↔
      e.key ∉ (s.extraction ids).internalEdges.map (·.source.key) := key_mem_boundary hend he

theorem key_mem_danglingIn {e : EndModel} (hend : s.skeleton.direction e = some .IN)
    (he : e.node_id ∈ ids) : e.key ∈ (s.extraction ids).danglingIn.map (·.1.key) ↔
      e.key ∉ (s.extraction ids).internalEdges.map (·.target.key) := key_mem_boundary hend he

/-- The boundary ports of the composite are on their sides. -/
theorem port_compositeNode (host : Host Sub) (s : GraphStore Sub) (ids : List String)
    (compositeId : String) (hin : Function.Injective inPortIds)
    (hout : Function.Injective outPortIds) (hapart : ∀ i j, inPortIds i ≠ outPortIds j) :
    (∀ i < (s.extraction ids).danglingIn.length,
      (compositeNode host s ids compositeId inPortIds outPortIds).frame.port (inPortIds i) =
        some .IN) ∧
    ∀ i < (s.extraction ids).exposedOut.length,
      (compositeNode host s ids compositeId inPortIds outPortIds).frame.port (outPortIds i) =
        some .OUT := by
  have hports : (compositeNode host s ids compositeId inPortIds outPortIds).frame.ports =
      ((List.range (s.extraction ids).danglingIn.length).map fun i =>
        (inPortIds i, Direction.IN)) ++
      (List.range (s.extraction ids).exposedOut.length).map fun i =>
        (outPortIds i, Direction.OUT) := by
    rw [← map_boundaryPorts "in", ← map_boundaryPorts "out", ← List.map_append]
    rfl
  have hnodup : ((compositeNode host s ids compositeId inPortIds outPortIds).frame.ports.map
      (·.1)).Nodup := by
    rw [hports, List.map_append, List.map_map, List.map_map, List.nodup_append]
    refine ⟨List.nodup_range.map hin, List.nodup_range.map hout, ?_⟩
    intro x hx y hy
    obtain ⟨i, -, rfl⟩ := List.mem_map.mp hx
    obtain ⟨j, -, rfl⟩ := List.mem_map.mp hy
    exact hapart i j
  constructor
  · intro i hi
    apply NodeFrame.port_of_mem hnodup
    rw [hports]
    exact List.mem_append_left _ (List.mem_map.mpr ⟨i, List.mem_range.mpr hi, rfl⟩)
  · intro i hi
    apply NodeFrame.port_of_mem hnodup
    rw [hports]
    exact List.mem_append_right _ (List.mem_map.mpr ⟨i, List.mem_range.mpr hi, rfl⟩)

/-- No node that stays is in a group that leaves, and no edge that crosses the
border is at a port that an edge inside is at too. -/
def SelectionFits (s : GraphStore Sub) (ids : List String) : Prop :=
  (∀ {k node}, s.nodes.get? k = some node → k ∉ ids →
    ∀ gid, node.groupId.join = some gid → gid ∉ ids) ∧
  ∀ edge ∈ (s.extraction ids).crossingEdges,
    if edge.source.node_id ∈ ids then
      edge.source.key ∉ (s.extraction ids).internalEdges.map (·.source.key)
    else edge.target.key ∉ (s.extraction ids).internalEdges.map (·.target.key)

/-! ### What a sound result asks for -/

theorem composite_ne (hnew : s.nodes.get? compositeId = none) {k : String}
    (hk : (s.nodes.get? k).isSome) : compositeId ≠ k := by
  rintro rfl
  rw [hnew] at hk
  cases hk

theorem get?_crossing (hs : s.toCanvasModel.Sound ok)
    (hedge : edge ∈ (s.extraction ids).crossingEdges) : s.edges.get? edge.id = some edge :=
  hs.get?_of_mem (mem_crossingEdges.mp hedge).1

/-- A node that stayed in a group that left would be in a group that is no node. -/
theorem group_stays (hids : ∀ id ∈ ids, (s.nodes.get? id).isSome)
    (hnew : s.nodes.get? compositeId = none)
    (h : (extracted host s ids compositeId inPortIds outPortIds).Sound ok) {k : String}
    {node : NodeModel Sub} (hk : s.nodes.get? k = some node) (hstays : k ∉ ids) {gid : String}
    (hgid : node.groupId.join = some gid) : gid ∉ ids := by
  intro hgone
  have hthere : (s.nodes.get? k).isSome := Option.isSome_iff_exists.mpr ⟨node, hk⟩
  have hk' : (extracted host s ids compositeId inPortIds outPortIds).nodes.get? k = some node := by
    rw [get?_node_extracted, if_neg (composite_ne hnew hthere), if_neg hstays, hk]
  have hgroup := CanvasModel.Sound.group_isSome h hk' hgid
  rw [get?_node_extracted, if_neg (composite_ne hnew (hids gid hgone)), if_pos hgone] at hgroup
  cases hgroup

/-- A rewired edge is at a boundary port, so no edge inside is at its end. -/
theorem end_bound (hs : s.toCanvasModel.Sound ok)
    (h : (extracted host s ids compositeId inPortIds outPortIds).Sound ok)
    (hedge : edge ∈ (s.extraction ids).crossingEdges) :
    if edge.source.node_id ∈ ids then
      edge.source.key ∉ (s.extraction ids).internalEdges.map (·.source.key)
    else edge.target.key ∉ (s.extraction ids).internalEdges.map (·.target.key) := by
  have hcross := get?_crossing hs hedge
  have hk : (extracted host s ids compositeId inPortIds outPortIds).edges.get? edge.id =
      some (rewired s ids compositeId inPortIds outPortIds edge) :=
    (get?_edge_extracted hs).mpr ⟨edge, hcross, .inr ⟨hedge, rfl⟩⟩
  have hsource := Skeleton.Sound.source_out h hk
  have htarget := Skeleton.Sound.target_in h hk
  rw [rewired] at hsource htarget
  split
  · rename_i hinside
    rw [if_pos hinside] at hsource
    obtain ⟨pid, -, hpid, -⟩ := Skeleton.direction_eq_some.mp hsource
    obtain ⟨-, -, -, hkey⟩ := get?_boundaryByMember hpid
    exact (key_mem_exposedOut (Skeleton.Sound.source_out hs hcross) hinside).mp hkey
  · rename_i houtside
    rw [if_neg houtside] at htarget
    obtain ⟨pid, -, hpid, -⟩ := Skeleton.direction_eq_some.mp htarget
    obtain ⟨-, -, -, hkey⟩ := get?_boundaryByMember hpid
    have hinside := (mem_crossingEdges.mp hedge).2.1.resolve_left houtside
    exact (key_mem_danglingIn (Skeleton.Sound.target_in hs hcross) hinside).mp hkey

/-! ### The result, part by part -/

/-- Without the selection, and with the edges away from it. -/
theorem sound_without (hs : s.toCanvasModel.Sound ok)
    (hgroup : ∀ {k node}, s.nodes.get? k = some node → k ∉ ids →
      ∀ gid, node.groupId.join = some gid → gid ∉ ids) :
    CanvasModel.Sound ok { s.toCanvasModel with
      nodes := s.nodes.filter fun id _ => id ∉ ids
      edges := s.edges.filter fun _ e => e.source.node_id ∉ ids ∧ e.target.node_id ∉ ids } := by
  have hedge : ∀ {k e}, (s.edges.filter fun _ e =>
      e.source.node_id ∉ ids ∧ e.target.node_id ∉ ids).get? k = some e →
        s.edges.get? k = some e ∧ e.source.node_id ∉ ids ∧ e.target.node_id ∉ ids := by
    intro k e hk
    rw [Dict.get?_filter] at hk
    simpa using Option.filter_eq_some_iff.mp hk
  refine (sound_released_iff hs (· ∈ ids) (fun _ => false) ?_ ?_ ?_).mpr ⟨?_, ?_⟩
  · intro k
    show (s.nodes.filter _).get? k = _
    rw [Dict.get?_filter]
    cases s.nodes.get? k with
    | none => simp
    | some node =>
        have hsame : GraphStore.release (fun _ => false) node = node := by
          rw [GraphStore.release, Option.any_false]
          rfl
        by_cases hk : k ∈ ids <;> simp [hk, Option.filter, hsame]
  · exact fun hk => (hedge hk).1
  · rfl
  · intro k node gid hk hstays hgid hgone
    exact absurd (by simpa using hgone) (hgroup hk (by simpa using hstays) gid hgid)
  · intro k e hk
    simpa using (hedge hk).2

/-- Then with the composite, and still without the edges that cross. -/
theorem sound_with_composite (hs : s.toCanvasModel.Sound ok)
    (hinner : ∀ graph, graph.Accepted ok → ok (host.inner graph))
    (hnew : s.nodes.get? compositeId = none)
    (hgroup : ∀ {k node}, s.nodes.get? k = some node → k ∉ ids →
      ∀ gid, node.groupId.join = some gid → gid ∉ ids) :
    CanvasModel.Sound ok { extracted host s ids compositeId inPortIds outPortIds with
      edges := s.edges.filter fun _ e => e.source.node_id ∉ ids ∧ e.target.node_id ∉ ids } := by
  refine (sound_without hs hgroup).set rfl rfl rfl rfl ?_ rfl ?_
  · show (s.nodes.filter _).get? compositeId = none
    rw [Dict.get?_filter, hnew, Option.filter_none]
  · intro sub hsub
    cases hsub
    exact hinner _ (accepted_innerGraph hs)

theorem node_extracted (k : String) :
    (extracted host s ids compositeId inPortIds outPortIds).skeleton.node k =
      if compositeId = k then
        some (compositeNode host s ids compositeId inPortIds outPortIds).frame
      else if k ∈ ids then none else s.skeleton.node k := by
  show Option.map _ (Dict.get? _ k) = _
  rw [get?_node_extracted]
  split
  · rfl
  · split <;> rfl

/-- An end outside the selection is as it was. -/
theorem direction_outside (hnew : s.nodes.get? compositeId = none) {e : EndModel} {d : Direction}
    (he : e.node_id ∉ ids) (hend : s.skeleton.direction e = some d) :
    (extracted host s ids compositeId inPortIds outPortIds).skeleton.direction e = some d := by
  have hthere := Skeleton.Sound.end_isSome hend
  rw [CanvasModel.node_isSome] at hthere
  rw [← hend]
  apply Skeleton.direction_of_ports
  rw [node_extracted, if_neg (composite_ne hnew hthere), if_neg he]

theorem direction_boundary {pid : String} {d : Direction}
    (hport : (compositeNode host s ids compositeId inPortIds outPortIds).frame.port pid = some d) :
    (extracted host s ids compositeId inPortIds outPortIds).skeleton.direction
      ⟨compositeId, some pid⟩ = some d :=
  Skeleton.direction_eq_some.mpr ⟨pid, _, rfl, (node_extracted _).trans (if_pos rfl), hport⟩

/-- A rewired edge runs from an OUT port to an IN port when its inner end has a
boundary port. -/
theorem ends_rewired (hs : s.toCanvasModel.Sound ok) (hnew : s.nodes.get? compositeId = none)
    (hin : Function.Injective inPortIds) (hout : Function.Injective outPortIds)
    (hapart : ∀ i j, inPortIds i ≠ outPortIds j)
    (hedge : edge ∈ (s.extraction ids).crossingEdges)
    (hfits : if edge.source.node_id ∈ ids then
        edge.source.key ∉ (s.extraction ids).internalEdges.map (·.source.key)
      else edge.target.key ∉ (s.extraction ids).internalEdges.map (·.target.key)) :
    (extracted host s ids compositeId inPortIds outPortIds).skeleton.direction
        (rewired s ids compositeId inPortIds outPortIds edge).source = some .OUT ∧
      (extracted host s ids compositeId inPortIds outPortIds).skeleton.direction
        (rewired s ids compositeId inPortIds outPortIds edge).target = some .IN := by
  have hcross := get?_crossing hs hedge
  have hsource := Skeleton.Sound.source_out hs hcross
  have htarget := Skeleton.Sound.target_in hs hcross
  have hcrosses := (mem_crossingEdges.mp hedge).2
  have hports := port_compositeNode host s ids compositeId hin hout hapart
  rw [rewired]
  by_cases hinside : edge.source.node_id ∈ ids
  · rw [if_pos hinside] at hfits ⊢
    obtain ⟨i, hi, hpid⟩ := exists_boundaryByMember outPortIds
      ((key_mem_exposedOut hsource hinside).mpr hfits)
    refine ⟨?_, direction_outside hnew (fun h => hcrosses.2 ⟨hinside, h⟩) htarget⟩
    show Skeleton.direction _ ⟨compositeId, Dict.get? _ edge.source.key⟩ = _
    rw [hpid]
    exact direction_boundary (hports.2 i hi)
  · rw [if_neg hinside] at hfits ⊢
    obtain ⟨i, hi, hpid⟩ := exists_boundaryByMember inPortIds
      ((key_mem_danglingIn htarget (hcrosses.1.resolve_left hinside)).mpr hfits)
    refine ⟨direction_outside hnew hinside hsource, ?_⟩
    show Skeleton.direction _ ⟨compositeId, Dict.get? _ edge.target.key⟩ = _
    rw [hpid]
    exact direction_boundary (hports.1 i hi)

theorem sound_extracted_iff (hs : s.toCanvasModel.Sound ok)
    (hinner : ∀ graph, graph.Accepted ok → ok (host.inner graph))
    (hids : ∀ id ∈ ids, (s.nodes.get? id).isSome) (hnew : s.nodes.get? compositeId = none)
    (hin : Function.Injective inPortIds) (hout : Function.Injective outPortIds)
    (hapart : ∀ i j, inPortIds i ≠ outPortIds j) :
    (extracted host s ids compositeId inPortIds outPortIds).Sound ok ↔ SelectionFits s ids := by
  constructor
  · intro h
    exact ⟨fun hk hstays _ hgid => group_stays hids hnew h hk hstays hgid,
      fun edge hedge => end_bound hs h hedge⟩
  · rintro ⟨hgroup, hedges⟩
    -- the crossing edges come last, onto a graph that is sound without them
    refine Skeleton.Sound.rewire (sound_with_composite hs hinner hnew hgroup) rfl ?_ rfl
    intro k e hk
    obtain ⟨edge, hedge, ⟨hsource, htarget, rfl⟩ | ⟨hmem, rfl⟩⟩ := (get?_edge_extracted hs).mp hk
    · left
      show (s.edges.filter _).get? k = _
      rw [Dict.get?_filter, hedge, Option.filter_some, if_pos (by simpa using ⟨hsource, htarget⟩)]
    · right
      exact ⟨id_rewired.trans (Skeleton.Sound.edge_id hs hedge),
        ends_rewired hs hnew hin hout hapart hmem (hedges edge hmem)⟩

end Extracted

end EmergentFlow.Canvas
