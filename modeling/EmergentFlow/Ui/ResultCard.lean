import EmergentFlow.Ui.StoreSound

/-!
# Ui — ResultCard

A result card for a selection, step by step: the card is added, and each output
is connected to it that is not yet. The card leaves a sound graph when every port
it is connected to is the OUT port it is listed as.
-/

namespace EmergentFlow.Canvas

variable {Sub : Type} {ok : Sub → Prop} {host : Host Sub} {s : GraphStore Sub}

/-! ## Connecting outputs -/

section Outputs

variable {card : EndModel}

/-- The end that an output is connected from. -/
def outputEnd (out : (NodeModel Sub × PortModel) × String) : EndModel :=
  ⟨out.1.1.id, some out.1.2.id⟩

theorem node_connect {source target : EndModel} {edgeId : String} :
    (s.connect host source target edgeId).1.skeleton.node = s.skeleton.node := by
  rw [GraphStore.connect]
  split
  · rfl
  · exact funext (frame_placed _ _)

theorem node_connectOutput {acc : GraphStore Sub × List ResultCardBlock}
    {out : (NodeModel Sub × PortModel) × String} :
    (GraphStore.connectOutput host card acc out).1.skeleton.node = acc.1.skeleton.node := by
  rw [GraphStore.connectOutput]
  split <;> exact node_connect

theorem fst_connectOutput {acc : GraphStore Sub × List ResultCardBlock}
    {out : (NodeModel Sub × PortModel) × String} :
    (GraphStore.connectOutput host card acc out).1 =
      (acc.1.connect host (outputEnd out) card out.2).1 := by
  rw [GraphStore.connectOutput]
  split <;> rfl

theorem edges_connect {source target : EndModel} {edgeId : String} :
    (s.connect host source target edgeId).1.edges =
      if s.edges.values.any fun edge => edge.source = source ∧ edge.target = target then s.edges
      else s.edges.set edgeId { id := edgeId, source, target } := by
  rw [GraphStore.connect]
  split <;> rfl

/-- An edge from the one end to the other is there after they are connected. -/
theorem exists_edge_connect (host : Host Sub) (s : GraphStore Sub) (source target : EndModel)
    (edgeId : String) : ∃ k e, (s.connect host source target edgeId).1.edges.get? k = some e ∧
      e.source = source ∧ e.target = target := by
  rw [edges_connect]
  split
  · rename_i hany
    obtain ⟨e, he, hends⟩ := List.any_eq_true.mp hany
    obtain ⟨k, hk⟩ := (Dict.mem_values_iff _).mp he
    exact ⟨k, e, hk, by simpa using hends⟩
  · exact ⟨edgeId, _, Dict.get?_set_self _ _ _, rfl, rfl⟩

/-- The edges there were stay when the new id is not one of theirs. -/
theorem edge_connect_of_get? {source target : EndModel} {edgeId k : String} {e : EdgeModel}
    (hnew : s.edges.get? edgeId = none) (h : s.edges.get? k = some e) :
    (s.connect host source target edgeId).1.edges.get? k = some e := by
  rw [edges_connect]
  split
  · exact h
  · rw [Dict.get?_set_ne, h]
    rintro rfl
    cases hnew.symm.trans h

theorem edge_connect_none {source target : EndModel} {edgeId k : String} (hne : edgeId ≠ k)
    (h : s.edges.get? k = none) :
    (s.connect host source target edgeId).1.edges.get? k = none := by
  rw [edges_connect]
  split
  · exact h
  · rw [Dict.get?_set_ne _ _ hne, h]

theorem node_connectOutputs (outputs : List ((NodeModel Sub × PortModel) × String))
    (acc : GraphStore Sub × List ResultCardBlock) :
    (outputs.foldl (GraphStore.connectOutput host card) acc).1.skeleton.node =
      acc.1.skeleton.node := by
  induction outputs generalizing acc with
  | nil => rfl
  | cons out outputs ih => rw [List.foldl_cons, ih, node_connectOutput]

/-- Under new ids, no edge is lost and each output has one. -/
theorem edges_connectOutputs (outputs : List ((NodeModel Sub × PortModel) × String))
    (acc : GraphStore Sub × List ResultCardBlock) (hdistinct : (outputs.map (·.2)).Nodup)
    (hnew : ∀ out ∈ outputs, acc.1.edges.get? out.2 = none) :
    (∀ k e, acc.1.edges.get? k = some e →
      (outputs.foldl (GraphStore.connectOutput host card) acc).1.edges.get? k = some e) ∧
    ∀ out ∈ outputs, ∃ k e,
      (outputs.foldl (GraphStore.connectOutput host card) acc).1.edges.get? k = some e ∧
        e.source = outputEnd out := by
  induction outputs generalizing acc with
  | nil =>
      refine ⟨fun k e hk => hk, ?_⟩
      intro out hout
      cases hout
  | cons out outputs ih =>
      rw [List.map_cons, List.nodup_cons] at hdistinct
      have hrest : ∀ out' ∈ outputs,
          (GraphStore.connectOutput host card acc out).1.edges.get? out'.2 = none := by
        intro out' hout'
        rw [fst_connectOutput]
        refine edge_connect_none ?_ (hnew out' (List.mem_cons_of_mem _ hout'))
        intro heq
        exact hdistinct.1 (heq ▸ List.mem_map_of_mem hout')
      obtain ⟨hkept, hadded⟩ := ih _ hdistinct.2 hrest
      rw [List.foldl_cons]
      refine ⟨fun k e hk => hkept k e ?_, fun out' hout' => ?_⟩
      · rw [fst_connectOutput]
        exact edge_connect_of_get? (hnew out List.mem_cons_self) hk
      · rcases List.mem_cons.mp hout' with rfl | hout'
        · obtain ⟨k, e, hk, hsource, -⟩ :=
            exists_edge_connect host acc.1 (outputEnd out') card out'.2
          rw [← fst_connectOutput] at hk
          exact ⟨k, e, hkept k e hk, hsource⟩
        · exact hadded out' hout'

theorem direction_of_node {s' : GraphStore Sub} (hnode : s'.skeleton.node = s.skeleton.node)
    (e : EndModel) : s'.skeleton.direction e = s.skeleton.direction e := by
  rw [Skeleton.direction, Skeleton.direction, hnode]

/-- Outputs connected under new ids leave a sound graph when each is an OUT port. -/
theorem sound_connectOutputs_iff (outputs : List ((NodeModel Sub × PortModel) × String))
    (acc : GraphStore Sub × List ResultCardBlock) (hs : acc.1.toCanvasModel.Sound ok)
    (hcard : acc.1.skeleton.direction card = some .IN) (hdistinct : (outputs.map (·.2)).Nodup)
    (hnew : ∀ out ∈ outputs, acc.1.edges.get? out.2 = none) :
    (outputs.foldl (GraphStore.connectOutput host card) acc).1.toCanvasModel.Sound ok ↔
      ∀ out ∈ outputs, acc.1.skeleton.direction (outputEnd out) = some .OUT := by
  constructor
  · intro h out hout
    obtain ⟨k, e, hk, hsource⟩ := (edges_connectOutputs outputs acc hdistinct hnew).2 out hout
    rw [← direction_of_node (node_connectOutputs outputs acc), ← hsource]
    exact Skeleton.Sound.source_out h hk
  · intro h
    clear hdistinct hnew
    induction outputs generalizing acc with
    | nil => exact hs
    | cons out outputs ih =>
        rw [List.foldl_cons]
        have hdirection : ∀ e, (GraphStore.connectOutput host card acc out).1.skeleton.direction e =
            acc.1.skeleton.direction e := direction_of_node node_connectOutput
        refine ih _ ?_ ?_ ?_
        · rw [fst_connectOutput]
          exact sound_connect hs (h out List.mem_cons_self) hcard
        · rw [hdirection]
          exact hcard
        · intro out' hout'
          rw [hdirection]
          exact h out' (List.mem_cons_of_mem _ hout')

end Outputs

/-! ## The card -/

theorem mem_cardOutputs {nodes : List (NodeModel Sub)} {edgeIds : Nat → String}
    {out : (NodeModel Sub × PortModel) × String}
    (h : out ∈ GraphStore.cardOutputs nodes edgeIds) :
    out.1.1 ∈ nodes ∧ out.1.2 ∈ (out.1.1.ports.filter (·.direction = .OUT)).take 3 ∧
      ∃ i, out.2 = edgeIds i := by
  obtain ⟨i, hi, rfl⟩ := List.mem_mapIdx.mp h
  obtain ⟨node, hnode, hport⟩ := List.mem_flatMap.mp (List.getElem_mem hi)
  obtain ⟨port, hport, heq⟩ := List.mem_map.mp hport
  rw [GraphStore.reading_order, List.mem_insertionSort] at hnode
  rw [← heq]
  exact ⟨hnode, hport, i, rfl⟩

theorem exists_cardOutput {nodes : List (NodeModel Sub)} (edgeIds : Nat → String)
    {node : NodeModel Sub} {port : PortModel} (hnode : node ∈ nodes)
    (hport : port ∈ (node.ports.filter (·.direction = .OUT)).take 3) :
    ∃ out ∈ GraphStore.cardOutputs nodes edgeIds, out.1 = (node, port) := by
  have hmem : (node, port) ∈ (GraphStore.reading_order nodes).flatMap fun node =>
      ((node.ports.filter (·.direction = .OUT)).take 3).map (node, ·) := by
    refine List.mem_flatMap.mpr ⟨node, ?_, List.mem_map.mpr ⟨port, hport, rfl⟩⟩
    rwa [GraphStore.reading_order, List.mem_insertionSort]
  obtain ⟨i, hi, heq⟩ := List.mem_iff_getElem.mp hmem
  exact ⟨_, List.mem_mapIdx.mpr ⟨i, hi, rfl⟩, heq⟩

theorem nodup_cardOutputs (nodes : List (NodeModel Sub)) {edgeIds : Nat → String}
    (hdistinct : Function.Injective edgeIds) :
    ((GraphStore.cardOutputs nodes edgeIds).map (·.2)).Nodup := by
  have hids : (GraphStore.cardOutputs nodes edgeIds).map (·.2) =
      (List.range (GraphStore.cardOutputs nodes edgeIds).length).map edgeIds := by
    apply List.ext_getElem
    · simp
    · intro i hi hi'
      simp [GraphStore.cardOutputs]
  rw [hids]
  exact List.nodup_range.map hdistinct

/-- The ports that a card lists of the nodes it shows are OUT ports. -/
def CardFits (host : Host Sub) (s : GraphStore Sub) (nodeIds : List String) : Prop :=
  ∀ spec, host.catalog.find? (·.type = "reports.result_card") = some spec →
    (∃ port ∈ spec.ports, port.direction = .IN) →
    ∀ node ∈ s.cardNodes nodeIds, ∀ port ∈ (node.ports.filter (·.direction = .OUT)).take 3,
      s.skeleton.direction ⟨node.id, some port.id⟩ = some .OUT

section Titled

variable {spec : CatalogNode} {position : Position} {cardId : String} {portIds : Nat → String}

/-- The card put into the store, under its title. -/
def GraphStore.addCard (s : GraphStore Sub) (host : Host Sub) (spec : CatalogNode)
    (position : Position) (cardId : String) (portIds : Nat → String) : GraphStore Sub :=
  (s.addNodeFromSpec host spec position cardId portIds).setParam cardId "title" (.str "Summary")

theorem skeleton_addCard : (s.addCard host spec position cardId portIds).skeleton =
    (s.addNodeFromSpec host spec position cardId portIds).skeleton :=
  skeleton_setParam

theorem edges_addCard : (s.addCard host spec position cardId portIds).edges = s.edges := by
  rw [GraphStore.addCard, GraphStore.setParam]
  split <;> rfl

theorem sound_addCard (hs : s.toCanvasModel.Sound ok) (hcard : s.nodes.get? cardId = none) :
    (s.addCard host spec position cardId portIds).toCanvasModel.Sound ok := by
  rw [CanvasModel.Sound, skeleton_addCard]
  exact sound_addNodeFromSpec hs hcard

theorem node_addCard (k : String) : (s.addCard host spec position cardId portIds).skeleton.node k =
    if cardId = k then
      some (GraphStore.nodeFromSpec spec position cardId portIds : NodeModel Sub).frame
    else s.skeleton.node k := by
  rw [skeleton_addCard]
  refine (frame_placed _ _ k).trans ?_
  rw [Dict.get?_set]
  split <;> rfl

/-- The ends of the other nodes are as they were. -/
theorem direction_addCard {e : EndModel} (he : e.node_id ≠ cardId) :
    (s.addCard host spec position cardId portIds).skeleton.direction e = s.skeleton.direction e := by
  apply Skeleton.direction_of_ports
  rw [node_addCard, if_neg (Ne.symm he)]

theorem ports_nodeFromSpec :
    (GraphStore.nodeFromSpec spec position cardId portIds : NodeModel Sub).frame.ports =
      spec.ports.mapIdx fun i port => (portIds i, port.direction) := by
  simp only [NodeModel.frame, GraphStore.nodeFromSpec]
  apply List.ext_getElem
  · simp
  · intro i hi hi'
    simp

/-- The card in the store has the ports it was built with. -/
theorem exists_card (s : GraphStore Sub) (host : Host Sub) (spec : CatalogNode)
    (position : Position) (cardId : String) (portIds : Nat → String) :
    ∃ card, (s.addCard host spec position cardId portIds).nodes.get? cardId = some card ∧
      card.frame.ports = spec.ports.mapIdx fun i port => (portIds i, port.direction) := by
  have hnode : (s.addCard host spec position cardId portIds).skeleton.node cardId = _ :=
    (node_addCard cardId).trans (if_pos rfl)
  obtain ⟨card, hget, hframe⟩ := CanvasModel.node_eq_some.mp hnode
  have hports := congrArg NodeFrame.ports hframe
  exact ⟨card, hget, hports.trans ports_nodeFromSpec⟩

variable {card : NodeModel Sub}

/-- The card has an IN port when its spec has one. -/
theorem exists_in_iff
    (hcard : card.frame.ports = spec.ports.mapIdx fun i port => (portIds i, port.direction)) :
    (∃ port ∈ card.ports, port.direction = .IN) ↔ ∃ port ∈ spec.ports, port.direction = .IN := by
  have hdirections : card.ports.map (·.direction) = spec.ports.map (·.direction) := by
    have hsnd := congrArg (List.map (·.2)) hcard
    rw [NodeModel.frame, List.map_map] at hsnd
    refine hsnd.trans ?_
    apply List.ext_getElem
    · simp
    · intro i hi hi'
      simp
  rw [← List.mem_map, ← List.mem_map, hdirections]

theorem nodup_port_ids (hports : Function.Injective portIds)
    (hcard : card.frame.ports = spec.ports.mapIdx fun i port => (portIds i, port.direction)) :
    (card.frame.ports.map (·.1)).Nodup := by
  have hids : card.frame.ports.map (·.1) = (List.range spec.ports.length).map portIds := by
    rw [hcard]
    apply List.ext_getElem
    · simp
    · intro i hi hi'
      simp
  rw [hids]
  exact List.nodup_range.map hports

/-- An IN port of the card is one in the store. -/
theorem direction_card_in (hports : Function.Injective portIds)
    (hget : (s.addCard host spec position cardId portIds).nodes.get? cardId = some card)
    (hcard : card.frame.ports = spec.ports.mapIdx fun i port => (portIds i, port.direction))
    {port : PortModel} (hport : port ∈ card.ports) (hdir : port.direction = .IN) :
    (s.addCard host spec position cardId portIds).skeleton.direction ⟨cardId, some port.id⟩ =
      some .IN := by
  refine Skeleton.direction_eq_some.mpr ⟨port.id, card.frame, rfl, ?_, ?_⟩
  · exact CanvasModel.node_eq_some.mpr ⟨card, hget, rfl⟩
  · exact NodeFrame.port_of_mem (nodup_port_ids hports hcard)
      (List.mem_map.mpr ⟨port, hport, by rw [hdir]⟩)

/-- Connected to the card, the outputs of the nodes leave a sound graph when each
is an OUT port. -/
theorem sound_filled_iff (hs : s.toCanvasModel.Sound ok) {nodes : List (NodeModel Sub)}
    {edgeIds : Nat → String} (hnodes : ∀ node ∈ nodes, s.nodes.get? node.id = some node)
    (hnew : ∀ i, s.edges.get? (edgeIds i) = none) (hedges : Function.Injective edgeIds)
    (hfree : s.nodes.get? cardId = none) {blocks : List ResultCardBlock} {pid : String}
    (hin : (s.addCard host spec position cardId portIds).skeleton.direction ⟨cardId, some pid⟩ =
      some .IN) :
    ((GraphStore.cardOutputs nodes edgeIds).foldl (GraphStore.connectOutput host ⟨cardId, some pid⟩)
        (s.addCard host spec position cardId portIds, blocks)).1.toCanvasModel.Sound ok ↔
      ∀ node ∈ nodes, ∀ port ∈ (node.ports.filter (·.direction = .OUT)).take 3,
        s.skeleton.direction ⟨node.id, some port.id⟩ = some .OUT := by
  have hne : ∀ node ∈ nodes, node.id ≠ cardId := by
    intro node hnode heq
    have hget := hnodes node hnode
    rw [heq, hfree] at hget
    cases hget
  refine (sound_connectOutputs_iff _ (s.addCard host spec position cardId portIds, blocks)
    (sound_addCard hs hfree) hin (nodup_cardOutputs nodes hedges) ?_).trans ⟨?_, ?_⟩
  · intro out hout
    obtain ⟨-, -, i, hi⟩ := mem_cardOutputs hout
    rw [hi, edges_addCard]
    exact hnew i
  · intro h node hnode port hport
    obtain ⟨out, hout, heq⟩ := exists_cardOutput edgeIds hnode hport
    have hdirection := h out hout
    rwa [outputEnd, heq, direction_addCard (hne node hnode)] at hdirection
  · intro h out hout
    obtain ⟨hnode, hport, -⟩ := mem_cardOutputs hout
    rw [outputEnd, direction_addCard (hne _ hnode)]
    exact h _ hnode _ hport

end Titled

theorem sound_buildResultCard_iff (hs : s.toCanvasModel.Sound ok) {spec : CatalogNode}
    {nodes : List (NodeModel Sub)} {cardId : String} {portIds edgeIds : Nat → String}
    (hnodes : ∀ node ∈ nodes, s.nodes.get? node.id = some node)
    (hcard : s.nodes.get? cardId = none) (hports : Function.Injective portIds)
    (hedges : Function.Injective edgeIds) (hnew : ∀ i, s.edges.get? (edgeIds i) = none) :
    (s.buildResultCard host spec nodes cardId portIds edgeIds).toCanvasModel.Sound ok ↔
      ((∃ port ∈ spec.ports, port.direction = .IN) →
        ∀ node ∈ nodes, ∀ port ∈ (node.ports.filter (·.direction = .OUT)).take 3,
          s.skeleton.direction ⟨node.id, some port.id⟩ = some .OUT) := by
  let position : Position := {
    x := max_of (nodes.map (·.position.x + GraphStore.NODE_FOOTPRINT_WIDTH)) + 80
    y := min_of (nodes.map (·.position.y)) }
  have hbuilt : ∀ filled : GraphStore Sub, ∀ value,
      (filled.setParam cardId "blocks_json" value).toCanvasModel.Sound ok ↔
        filled.toCanvasModel.Sound ok := by
    intro filled value
    rw [CanvasModel.Sound, CanvasModel.Sound, skeleton_setParam]
  obtain ⟨card, hget, hcardports⟩ := exists_card s host spec position cardId portIds
  have hbind : (((s.addCard host spec position cardId portIds).nodes.get? cardId).bind fun card =>
      card.ports.find? (·.direction = .IN)) = card.ports.find? (·.direction = .IN) := by
    rw [hget, Option.bind_some]
  simp only [GraphStore.addCard, position] at hbind
  simp only [GraphStore.buildResultCard, hbuilt, hbind]
  cases hin : card.ports.find? (·.direction = .IN) with
  | none =>
      refine iff_of_true (sound_addCard hs hcard) fun hthere => ?_
      obtain ⟨port, hport, hdir⟩ := (exists_in_iff hcardports).mpr hthere
      have hnot := List.find?_eq_none.mp hin port hport
      simp [hdir] at hnot
  | some port =>
      have hport := List.mem_of_find?_eq_some hin
      have hdir : port.direction = .IN := by simpa using List.find?_some hin
      rw [forall_prop_of_true ((exists_in_iff hcardports).mp ⟨port, hport, hdir⟩)]
      exact sound_filled_iff hs hnodes hnew hedges hcard
        (direction_card_in hports hget hcardports hport hdir)

theorem sound_createResultCard_iff (hs : s.toCanvasModel.Sound ok) {nodeIds : List String}
    {cardId : String} {portIds edgeIds : Nat → String} (hcard : s.nodes.get? cardId = none)
    (hports : Function.Injective portIds) (hedges : Function.Injective edgeIds)
    (hnew : ∀ i, s.edges.get? (edgeIds i) = none) :
    (s.createResultCardForSelection host nodeIds cardId portIds edgeIds).toCanvasModel.Sound ok ↔
      CardFits host s nodeIds := by
  have hnodes : ∀ node ∈ s.cardNodes nodeIds, s.nodes.get? node.id = some node := by
    intro node hnode
    obtain ⟨id, -, hget⟩ := List.mem_filterMap.mp (List.mem_filter.mp hnode).1
    rwa [hs.id_eq hget]
  rw [GraphStore.createResultCardForSelection, CardFits]
  cases hspec : host.catalog.find? (·.type = "reports.result_card") with
  | none =>
      refine iff_of_true hs fun spec h => ?_
      cases h
  | some spec =>
      simp only [Option.some.injEq, forall_eq']
      by_cases hnone : s.cardNodes nodeIds = []
      · simp only [hnone, if_pos]
        exact iff_of_true hs fun _ _ hmem => absurd hmem List.not_mem_nil
      · simp only [if_neg hnone]
        exact sound_buildResultCard_iff hs hnodes hcard hports hedges hnew

end EmergentFlow.Canvas
