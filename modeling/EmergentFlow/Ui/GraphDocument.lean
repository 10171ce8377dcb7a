import EmergentFlow.Ui.Skeleton

/-!
# Ui — GraphDocument

The skeletons of documents and of models, which the mappers between the two keep,
and the documents whose composites are nested any number of levels deep. `inner`
is the graph a composite carries.
-/

namespace EmergentFlow.Canvas

variable {Sub Sub' : Type} {ok : Sub → Prop} {ok' : Sub' → Prop}

/-! ## Documents and models -/

def IRNode.frame (node : IRNode Sub) : NodeFrame Sub where
  id := node.id.getD ""
  ports := (node.ports.getD []).map fun port => (port.id.getD "", port.direction)
  group := node.group_id.join
  inner := node.subgraph.join

def IRGraph.skeleton (graph : IRGraph Sub) : Skeleton Sub where
  node k := ((graph.nodes.getD .empty).get? k).map (·.frame)
  edge k := ((graph.edges.getD .empty).get? k).map edgeFromIR
  param k := ((graph.params.getD .empty).get? k).map (·.name)

def NodeModel.frame (node : NodeModel Sub) : NodeFrame Sub where
  id := node.id
  ports := node.ports.map fun port => (port.id, port.direction)
  group := node.groupId.join
  inner := node.subgraph.join

def CanvasModel.skeleton (m : CanvasModel Sub) : Skeleton Sub where
  node k := (m.nodes.get? k).map (·.frame)
  edge k := m.edges.get? k
  param k := ((m.params.getD .empty).get? k).map (·.name)

/-- What `Graph.model_validate` demands of the structure of a document, with inner
graphs that are `ok`. An end with no port is a member that is missing. -/
structure IRGraph.Accepted (ok : Sub → Prop) (graph : IRGraph Sub) : Prop where
  ported : ∀ {k edge}, (graph.edges.getD .empty).get? k = some edge →
    edge.source.port_id.isSome ∧ edge.target.port_id.isSome
  structured : graph.filled.validate_structure = .ok ()
  inner : ∀ {k node sub}, (graph.nodes.getD .empty).get? k = some node →
    node.subgraph.join = some sub → ok sub

theorem IRNode.port_frame (node : IRNode Sub) (id : String) :
    (node.filled.ports.reverse.find? (·.id = id)).map (·.direction) = node.frame.port id := by
  rw [NodeFrame.port]
  simp only [IRNode.filled, IRNode.frame, ← List.map_reverse, List.find?_map, Option.map_map]
  rfl

theorem direction_filled {graph : IRGraph Sub} {e : EndModel} (h : e.port_id.isSome) :
    graph.filled.port_direction e.filled = graph.skeleton.direction e := by
  obtain ⟨id, hid⟩ := Option.isSome_iff_exists.mp h
  rw [Graph.port_direction, Skeleton.direction, hid, Option.bind_some]
  show ((Dict.get? (Dict.mapValues _ _) e.node_id).bind _) = _
  rw [Dict.get?_mapValues, IRGraph.skeleton]
  show _ = (((graph.nodes.getD .empty).get? e.node_id).map (·.frame)).bind (·.port id)
  cases (graph.nodes.getD .empty).get? e.node_id with
  | none => rfl
  | some node =>
      have hport : e.filled.port_id = id := by rw [EndModel.filled, hid, Option.getD_some]
      simp only [Option.map_some, Option.bind_some, hport]
      exact node.port_frame id

/-- A document is accepted when its skeleton is sound. -/
theorem IRGraph.accepted_iff {graph : IRGraph Sub} :
    graph.Accepted ok ↔ graph.skeleton.Sound ok := by
  have hget_node : ∀ k, graph.filled.nodes.get? k =
      ((graph.nodes.getD .empty).get? k).map (·.filled) := fun k => Dict.get?_mapValues _ _ k
  have hget_edge : ∀ k, graph.filled.edges.get? k =
      ((graph.edges.getD .empty).get? k).map (·.filled) := fun k => Dict.get?_mapValues _ _ k
  have hget_param : ∀ k, graph.filled.params.get? k =
      ((graph.params.getD .empty).get? k).map (·.filled) := fun k => Dict.get?_mapValues _ _ k
  constructor
  · intro h
    have hv := Graph.validate_structure_eq_ok.mp h.structured
    refine ⟨?_, ?_, ?_, ?_, ?_, ?_, ?_⟩
    · intro k f hk
      obtain ⟨node, hnode, rfl⟩ := Option.map_eq_some_iff.mp hk
      exact hv.node_id ((hget_node k).trans (congrArg (Option.map _) hnode))
    · intro k name hk
      obtain ⟨param, hparam, rfl⟩ := Option.map_eq_some_iff.mp hk
      exact hv.param_name ((hget_param k).trans (congrArg (Option.map _) hparam))
    · intro k e hk
      obtain ⟨edge, hedge, rfl⟩ := Option.map_eq_some_iff.mp hk
      exact hv.edge_id ((hget_edge k).trans (congrArg (Option.map _) hedge))
    · intro k e hk
      obtain ⟨edge, hedge, rfl⟩ := Option.map_eq_some_iff.mp hk
      exact (direction_filled (h.ported hedge).1).symm.trans
        (hv.source_out ((hget_edge k).trans (congrArg (Option.map _) hedge)))
    · intro k e hk
      obtain ⟨edge, hedge, rfl⟩ := Option.map_eq_some_iff.mp hk
      exact (direction_filled (h.ported hedge).2).symm.trans
        (hv.target_in ((hget_edge k).trans (congrArg (Option.map _) hedge)))
    · intro k f gid hk hgid
      obtain ⟨node, hnode, rfl⟩ := Option.map_eq_some_iff.mp hk
      obtain ⟨group, hgroup⟩ :=
        hv.group ((hget_node k).trans (congrArg (Option.map _) hnode)) hgid
      rw [hget_node] at hgroup
      obtain ⟨node', hnode', -⟩ := Option.map_eq_some_iff.mp hgroup
      exact Option.isSome_iff_exists.mpr ⟨_, congrArg (Option.map _) hnode'⟩
    · intro k f sub hk hsub
      obtain ⟨node, hnode, rfl⟩ := Option.map_eq_some_iff.mp hk
      exact h.inner hnode hsub
  · intro h
    have hported : ∀ {k edge}, (graph.edges.getD .empty).get? k = some edge →
        edge.source.port_id.isSome ∧ edge.target.port_id.isSome := by
      intro k edge hedge
      have hk : graph.skeleton.edge k = some (edgeFromIR edge) := congrArg (Option.map _) hedge
      obtain ⟨p, -, hp, -⟩ := Skeleton.direction_eq_some.mp (h.source_out hk)
      obtain ⟨q, -, hq, -⟩ := Skeleton.direction_eq_some.mp (h.target_in hk)
      exact ⟨Option.isSome_iff_exists.mpr ⟨p, hp⟩, Option.isSome_iff_exists.mpr ⟨q, hq⟩⟩
    refine ⟨hported, Graph.validate_structure_eq_ok.mpr ⟨?_, ?_, ?_, ?_, ?_, ?_⟩, ?_⟩
    · intro k node hk
      rw [hget_node] at hk
      obtain ⟨node, hnode, rfl⟩ := Option.map_eq_some_iff.mp hk
      exact h.node_id (congrArg (Option.map _) hnode)
    · intro k param hk
      rw [hget_param] at hk
      obtain ⟨param, hparam, rfl⟩ := Option.map_eq_some_iff.mp hk
      exact h.param_name (congrArg (Option.map _) hparam)
    · intro k edge hk
      rw [hget_edge] at hk
      obtain ⟨edge, hedge, rfl⟩ := Option.map_eq_some_iff.mp hk
      exact h.edge_id (congrArg (Option.map edgeFromIR) hedge)
    · intro k edge hk
      rw [hget_edge] at hk
      obtain ⟨edge, hedge, rfl⟩ := Option.map_eq_some_iff.mp hk
      exact (direction_filled (hported hedge).1).trans
        (h.source_out (congrArg (Option.map edgeFromIR) hedge))
    · intro k edge hk
      rw [hget_edge] at hk
      obtain ⟨edge, hedge, rfl⟩ := Option.map_eq_some_iff.mp hk
      exact (direction_filled (hported hedge).2).trans
        (h.target_in (congrArg (Option.map edgeFromIR) hedge))
    · intro k node gid hk hgid
      rw [hget_node] at hk
      obtain ⟨node, hnode, rfl⟩ := Option.map_eq_some_iff.mp hk
      obtain ⟨f, hf⟩ := Option.isSome_iff_exists.mp (h.group (congrArg (Option.map _) hnode) hgid)
      obtain ⟨node', hnode', -⟩ := Option.map_eq_some_iff.mp hf
      exact ⟨_, (hget_node gid).trans (congrArg (Option.map _) hnode')⟩
    · intro k node sub hnode hsub
      exact h.inner (congrArg (Option.map IRNode.frame) hnode) hsub

theorem frame_nodeToIR (node : NodeModel Sub) : (nodeToIR node).frame = node.frame := by
  simp only [IRNode.frame, nodeToIR, NodeModel.frame, Option.getD_some, List.map_map]
  rfl

theorem frame_nodeFromIR (node : IRNode Sub) : (nodeFromIR node).frame = node.frame := by
  simp only [IRNode.frame, nodeFromIR, NodeModel.frame, List.map_map]
  rfl

theorem skeleton_toIR (m : CanvasModel Sub) : (toIR m).skeleton = m.skeleton := by
  have hnode : ∀ k, ((m.nodes.mapValues fun _ node => nodeToIR node).get? k).map (·.frame) =
      (m.nodes.get? k).map (·.frame) := by
    intro k
    rw [Dict.get?_mapValues, Option.map_map]
    exact congrArg (Option.map · (m.nodes.get? k)) (funext frame_nodeToIR)
  have hedge : ∀ k, ((m.edges.mapValues fun _ edge => edgeToIR edge).get? k).map edgeFromIR =
      m.edges.get? k := by
    intro k
    rw [Dict.get?_mapValues, Option.map_map]
    exact Option.map_id_apply
  have hparam : ∀ k, (((toIR m).params.getD .empty).get? k).map (·.name) =
      ((m.params.getD .empty).get? k).map (·.name) := by
    intro k
    rw [toIR]
    cases m.params with
    | none => rfl
    | some params =>
        simp only [Option.map_some, Option.getD_some]
        rw [Dict.get?_mapValues, Option.map_map]
        rfl
  exact congr (congr (congrArg Skeleton.mk (funext hnode)) (funext hedge)) (funext hparam)

theorem skeleton_fromIR (graph : IRGraph Sub) : (fromIR graph).skeleton = graph.skeleton := by
  have hnode : ∀ k, (((graph.nodes.getD .empty).mapValues fun _ node =>
      nodeFromIR node).get? k).map (·.frame) =
        ((graph.nodes.getD .empty).get? k).map (·.frame) := by
    intro k
    rw [Dict.get?_mapValues, Option.map_map]
    exact congrArg (Option.map · ((graph.nodes.getD .empty).get? k)) (funext frame_nodeFromIR)
  have hedge : ∀ k, ((graph.edges.getD .empty).mapValues fun _ edge => edgeFromIR edge).get? k =
      ((graph.edges.getD .empty).get? k).map edgeFromIR := fun k => Dict.get?_mapValues _ _ k
  have hparam : ∀ k, (((fromIR graph).params.getD .empty).get? k).map (·.name) =
      ((graph.params.getD .empty).get? k).map (·.name) := by
    intro k
    rw [fromIR]
    cases graph.params with
    | none => rfl
    | some params =>
        simp only [Option.map_some, Option.getD_some]
        rw [Dict.get?_mapValues, Option.map_map]
        rfl
  exact congr (congr (congrArg Skeleton.mk (funext hnode)) (funext hedge)) (funext hparam)

/-! ## Documents of any depth -/

/-- The documents whose composites are nested less than `n` deep. -/
def NestedIR : Nat → Type
  | 0 => Empty
  | n + 1 => IRGraph (NestedIR n)

/-- The structure is accepted at every level. -/
def NestedIR.Accepted : (n : Nat) → NestedIR n → Prop
  | 0, graph => nomatch graph
  | n + 1, graph => IRGraph.Accepted (NestedIR.Accepted n) graph

/-- A document with composites nested any number of levels deep. -/
def GraphDocument : Type := Σ n, NestedIR n

def GraphDocument.Accepted (d : GraphDocument) : Prop := NestedIR.Accepted d.1 d.2

/-- The document with what each inner graph becomes. -/
def IRGraph.mapInner (f : Sub → Option Sub') (graph : IRGraph Sub) : IRGraph Sub' where
  schema_version := graph.schema_version
  paradigm := graph.paradigm
  name := graph.name
  nodes := graph.nodes.map fun nodes => nodes.mapValues fun _ node => {
    id := node.id
    type := node.type
    label := node.label
    paradigm := node.paradigm
    params := node.params
    ports := node.ports
    position := node.position
    group_id := node.group_id
    subgraph := node.subgraph.map fun sub => sub.bind f }
  edges := graph.edges
  params := graph.params

/-- The document among those of a depth. -/
def NestedIR.fit : (m n : Nat) → NestedIR m → Option (NestedIR n)
  | 0, _, graph => nomatch graph
  | _ + 1, 0, _ => none
  | m + 1, n + 1, graph => some (IRGraph.mapInner (NestedIR.fit m n) graph)

/-- How deep the inner graphs of a document are. -/
def IRGraph.depth (graph : IRGraph GraphDocument) : Nat :=
  (((graph.nodes.getD .empty).values.filterMap (·.subgraph.join)).map (·.1)).max?.getD 0

/-- The graph that a composite carries. -/
def IRGraph.inner (graph : IRGraph GraphDocument) : GraphDocument :=
  ⟨graph.depth + 1, graph.mapInner fun d => NestedIR.fit d.1 graph.depth d.2⟩

/-- A map that keeps which inner graphs are fine keeps what is accepted. -/
theorem IRGraph.accepted_mapInner {graph : IRGraph Sub} {f : Sub → Option Sub'}
    (hf : ∀ {k node sub}, (graph.nodes.getD .empty).get? k = some node →
      node.subgraph.join = some sub → ∃ sub', f sub = some sub' ∧ (ok' sub' ↔ ok sub)) :
    (graph.mapInner f).Accepted ok' ↔ graph.Accepted ok := by
  have hget : ∀ k, ((graph.mapInner f).skeleton.node k) = (graph.skeleton.node k).map fun fr =>
      { id := fr.id, ports := fr.ports, group := fr.group, inner := fr.inner.bind f } := by
    intro k
    show ((((graph.mapInner f).nodes).getD .empty).get? k).map (·.frame) =
      (((graph.nodes.getD .empty).get? k).map (·.frame)).map _
    rw [IRGraph.mapInner]
    cases graph.nodes with
    | none => rfl
    | some nodes =>
        simp only [Option.map_some, Option.getD_some]
        rw [Dict.get?_mapValues, Option.map_map, Option.map_map]
        refine congrArg (Option.map · (nodes.get? k)) (funext fun node => ?_)
        simp only [Function.comp_apply, IRNode.frame]
        cases hsub : node.subgraph with
        | none => rfl
        | some sub => cases sub <;> rfl
  have hsockets : ∀ k, ((graph.mapInner f).skeleton.node k).map (·.sockets) =
      (graph.skeleton.node k).map (·.sockets) := by
    intro k
    rw [hget, Option.map_map]
    rfl
  have hsome : ∀ k, ((graph.mapInner f).skeleton.node k).isSome =
      (graph.skeleton.node k).isSome := by
    intro k
    rw [hget, Option.isSome_map]
  rw [IRGraph.accepted_iff, IRGraph.accepted_iff]
  constructor
  · intro h
    refine h.relabel (fun k => (hsockets k).symm) rfl rfl ?_ ?_
    · intro k fr gid hk hgid
      have hk' := hget k
      rw [hk, Option.map_some] at hk'
      rw [← hsome]
      exact h.group hk' hgid
    · intro k fr sub hk hsub
      obtain ⟨node, hnode, rfl⟩ := Option.map_eq_some_iff.mp hk
      obtain ⟨sub', hfit, hiff⟩ := hf hnode hsub
      have hk' := hget k
      rw [hk, Option.map_some] at hk'
      refine hiff.mp (h.inner hk' ?_)
      show node.frame.inner.bind f = some sub'
      rw [hsub, Option.bind_some, hfit]
  · intro h
    refine h.relabel hsockets rfl rfl ?_ ?_
    · intro k fr gid hk hgid
      rw [hget] at hk
      obtain ⟨fr, hfr, rfl⟩ := Option.map_eq_some_iff.mp hk
      rw [hsome]
      exact h.group hfr hgid
    · intro k fr sub' hk hsub
      rw [hget] at hk
      obtain ⟨fr, hfr, rfl⟩ := Option.map_eq_some_iff.mp hk
      obtain ⟨node, hnode, rfl⟩ := Option.map_eq_some_iff.mp hfr
      obtain ⟨sub, hsub', hfit⟩ := Option.bind_eq_some_iff.mp hsub
      obtain ⟨sub'', hfit', hiff⟩ := hf hnode hsub'
      rw [hfit] at hfit'
      cases hfit'
      exact hiff.mpr (h.inner hfr hsub')

/-- What is no deeper fits, and stays as acceptable as it is. -/
theorem NestedIR.fit_accepted {m n : Nat} (hmn : m ≤ n) (graph : NestedIR m) :
    ∃ graph', NestedIR.fit m n graph = some graph' ∧
      (NestedIR.Accepted n graph' ↔ NestedIR.Accepted m graph) := by
  induction m generalizing n with
  | zero => cases graph
  | succ m ih =>
      cases n with
      | zero => omega
      | succ n =>
          exact ⟨_, rfl, IRGraph.accepted_mapInner fun _ _ => ih (by omega) _⟩

/-- The inner graph is accepted when the document is. -/
theorem accepted_inner (graph : IRGraph GraphDocument) :
    graph.inner.Accepted ↔ graph.Accepted GraphDocument.Accepted := by
  refine IRGraph.accepted_mapInner fun {k node d} hnode hsub => ?_
  apply NestedIR.fit_accepted
  apply List.le_max?_getD_of_mem
  apply List.mem_map_of_mem
  rw [List.mem_filterMap]
  exact ⟨node, (Dict.mem_values_iff _).mpr ⟨k, hnode⟩, hsub⟩

end EmergentFlow.Canvas
