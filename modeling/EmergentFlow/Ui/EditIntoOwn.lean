import EmergentFlow.Ir.MutationLaw
import EmergentFlow.Ui.LoadLaw

/-!
# Ui — EditIntoOwn

A proposal on the canvas: the ghost diff (`ui/src/session/ghostDiff.ts`) and what
"Edit into own" (`ui/src/session/ProposalPanel.tsx`) makes of it, before it rejects
the proposal. The server's `apply_mutation` is what the canvas is compared with.

Of the five parts of a diff only the added nodes and edges reach the canvas.
-/

namespace EmergentFlow

variable {Sub : Type}

/-- The node, wherever it is. -/
def Node.unplaced (node : Node Sub) : Node Sub := { node with position := {} }

/-- The updates say what the node's params say. -/
def Node.Holds (node : Node Sub) (updates : Dict String ParamValue) : Prop :=
  ∀ name value, updates.get? name = some value → name ∈ node.params.map (·.name) ∧
    ∀ p ∈ node.params, p.name = name → p.value = value

theorem Param.updated_eq_self_iff {updates : Dict String ParamValue} {p : Param} :
    p.updated updates = p ↔ ∀ value, updates.get? p.name = some value → p.value = value := by
  rw [Param.updated]
  cases updates.get? p.name with
  | none => simp
  | some value =>
      constructor
      · intro h value' hvalue
        rw [← Option.some.inj hvalue, ← h]
      · intro h
        rw [← h value rfl]

theorem Node.with_params_eq_self_iff {node : Node Sub} {updates : Dict String ParamValue} :
    node.with_params updates = node ↔ node.Holds updates := by
  have hparams : node.with_params updates = node ↔
      updated_params node.params updates = node.params := by
    constructor
    · exact congrArg Node.params
    · intro h
      rw [Node.with_params, h]
  have hmap : node.params.map (·.updated updates) = node.params ↔
      ∀ p ∈ node.params, p.updated updates = p := by
    have hid := @List.map_inj_left _ _ node.params (·.updated updates) (fun p => p)
    rwa [List.map_id'] at hid
  rw [hparams]
  constructor
  · intro h name value hvalue
    rw [updated_params] at h
    -- an update of a param the node lacks would make the list longer
    have hlength := congrArg List.length h
    simp only [List.length_append, List.length_map, Nat.add_eq_left, List.length_eq_zero_iff]
      at hlength
    rw [hlength, List.map_nil, List.append_nil] at h
    refine ⟨?_, ?_⟩
    · simpa using List.filter_eq_nil_iff.mp hlength _ ((Dict.mem_entries_iff _).mpr hvalue)
    · rintro p hp rfl
      exact Param.updated_eq_self_iff.mp (hmap.mp h p hp) value hvalue
  · intro h
    have hcarried : ∀ name ∈ updates.keys, name ∈ node.params.map (·.name) := by
      intro name hname
      obtain ⟨value, hvalue⟩ := (Dict.mem_keys_iff _).mp hname
      exact (h name value hvalue).1
    rw [updated_params_of_carried hcarried, hmap]
    intro p hp
    exact Param.updated_eq_self_iff.mpr fun value hvalue => (h _ value hvalue).2 p hp rfl

namespace Canvas

/-! ## The proposal -/

/-- `GraphMutation` of the generated types. -/
structure IRMutation (Sub : Type) where
  base_version : Int
  add_nodes : Option (List (IRNode Sub)) := none
  add_edges : Option (List IREdge) := none
  remove_nodes : Option (List String) := none
  remove_edges : Option (List String) := none
  set_params : Option (Dict String (Dict String ParamValue)) := none
  description : Option String := none
  author : Option String := none

/-- The id that is given, or the fresh one: `withStableId` takes an empty id for
none. -/
def stable_id (id : String) (newId : String) : String := if id = "" then newId else id

/-- The mutation of a proposal, the missing ids being these. -/
def IRMutation.minted (mutation : IRMutation Sub) (nodeIds edgeIds : Nat → String) :
    GraphMutation Sub where
  base_version := mutation.base_version
  add_nodes := (mutation.add_nodes.getD []).mapIdx fun i node =>
    { node.filled with id := stable_id node.filled.id (nodeIds i) }
  add_edges := (mutation.add_edges.getD []).mapIdx fun i edge =>
    { edge.filled with id := stable_id edge.filled.id (edgeIds i) }
  remove_nodes := mutation.remove_nodes.getD []
  remove_edges := mutation.remove_edges.getD []
  set_params := mutation.set_params.getD .empty
  description := mutation.description.getD ""
  author := mutation.author.getD "human"

/-! ## The ghost diff -/

/-- `GhostDiff`. -/
structure GhostDiff (Sub : Type) where
  addedNodes : List (NodeModel Sub)
  addedEdges : List EdgeModel
  removedNodeIds : List String
  removedEdgeIds : List String
  paramChangedNodeIds : List String

def AUTO_LAYOUT_X_OFFSET : Rat := 260

def AUTO_LAYOUT_Y_SPACING : Rat := 160

/-- `existingMaxX`. -/
def existingMaxX (model : CanvasModel Sub) : Rat :=
  max_of (model.nodes.values.map (·.position.x))

/-- The nodes of a diff, the next fresh ids being these: those without a position
are put one below the other. -/
def ghostNodes (baseX : Rat) :
    List (IRNode Sub) → (Nat → String) → Nat → List (NodeModel Sub)
  | [], _, _ => []
  | rawNode :: rest, nodeIds, autoLayoutIndex =>
      let node := nodeFromIR rawNode
      let mapped := { node with id := stable_id node.id (nodeIds 0) }
      if rawNode.position.isSome then
        mapped :: ghostNodes baseX rest (fun i => nodeIds (i + 1)) autoLayoutIndex
      else { mapped with position := ⟨baseX, autoLayoutIndex * AUTO_LAYOUT_Y_SPACING⟩ } ::
        ghostNodes baseX rest (fun i => nodeIds (i + 1)) (autoLayoutIndex + 1)

/-- `computeGhostDiff`, `newId` giving these ids. -/
def computeGhostDiff (model : CanvasModel Sub) (mutation : IRMutation Sub)
    (nodeIds edgeIds : Nat → String) : GhostDiff Sub where
  addedNodes := ghostNodes (existingMaxX model + AUTO_LAYOUT_X_OFFSET)
    (mutation.add_nodes.getD []) nodeIds 0
  addedEdges := (mutation.add_edges.getD []).mapIdx fun i rawEdge =>
    let edge := edgeFromIR rawEdge
    { edge with id := stable_id edge.id (edgeIds i) }
  removedNodeIds := mutation.remove_nodes.getD []
  removedEdgeIds := mutation.remove_edges.getD []
  paramChangedNodeIds := (mutation.set_params.getD .empty).keys

/-- `handleEditIntoOwn`, up to the rejection of the proposal. -/
def GraphStore.editIntoOwn (s : GraphStore Sub) (host : Host Sub) (mutation : IRMutation Sub)
    (nodeIds edgeIds : Nat → String) : GraphStore Sub :=
  let model := snapshot s.toCanvasModel
  let diff := computeGhostDiff model mutation nodeIds edgeIds
  s.loadModel host { model with
    nodes := model.nodes.merge (·.id) diff.addedNodes
    edges := model.edges.merge (·.id) diff.addedEdges } true

/-! ## What the canvas holds then -/

/-- The graph that the canvas stands for. -/
def GraphStore.graph (s : GraphStore Sub) : Graph Sub := (toIR s.toCanvasModel).filled

theorem get?_graph_nodes (s : GraphStore Sub) (k : String) :
    s.graph.nodes.get? k = (s.nodes.get? k).map fun node => (nodeToIR node).filled := by
  simp only [GraphStore.graph, toIR, IRGraph.filled, Option.getD_some, Dict.get?_mapValues,
    Option.map_map]
  rfl

theorem get?_graph_edges (s : GraphStore Sub) (k : String) :
    s.graph.edges.get? k = (s.edges.get? k).map fun edge => (edgeToIR edge).filled := by
  simp only [GraphStore.graph, toIR, IRGraph.filled, Option.getD_some, Dict.get?_mapValues,
    Option.map_map]
  rfl

/-- What a node on the canvas stands for, wherever it is. -/
def NodeModel.meaning (node : NodeModel Sub) : Node Sub := (nodeToIR node).filled.unplaced

theorem meaning_ghost (rawNode : IRNode Sub) (id : String) (position : Position) :
    NodeModel.meaning { nodeFromIR rawNode with id, position } =
      Node.unplaced { rawNode.filled with id } := by
  have hfilled := congrArg Node.unplaced (filled_nodeToIR_fromIR rawNode position)
  exact congrArg (fun node : Node Sub => { node with id }) hfilled

theorem map_ghostNodes (baseX : Rat) (l : List (IRNode Sub)) (nodeIds : Nat → String)
    (autoLayoutIndex : Nat) : (ghostNodes baseX l nodeIds autoLayoutIndex).map (·.meaning) =
      (l.mapIdx fun i node =>
        { node.filled with id := stable_id node.filled.id (nodeIds i) }).map (·.unplaced) := by
  induction l generalizing nodeIds autoLayoutIndex with
  | nil => rfl
  | cons rawNode l ih =>
      have hhead := meaning_ghost rawNode (stable_id (nodeFromIR rawNode).id (nodeIds 0))
      rw [List.mapIdx_cons, List.map_cons, ghostNodes]
      split
      · rw [List.map_cons, ih]
        exact List.cons_eq_cons.mpr ⟨hhead _, rfl⟩
      · rw [List.map_cons, ih]
        exact List.cons_eq_cons.mpr ⟨hhead _, rfl⟩

section Edit

variable (host : Host Sub) (s : GraphStore Sub) {mutation : IRMutation Sub}
  {nodeIds edgeIds : Nat → String}

/-- The canvas keeps its nodes and takes over the added ones. -/
theorem get?_editIntoOwn_nodes
    (hnodup : ((mutation.minted nodeIds edgeIds).add_nodes.map (·.id)).Nodup) (k : String) :
    ((s.editIntoOwn host mutation nodeIds edgeIds).graph.nodes.get? k).map (·.unplaced) =
      (((mutation.minted nodeIds edgeIds).add_nodes.find? (·.id = k)).or
        (s.graph.nodes.get? k)).map (·.unplaced) := by
  set added := (computeGhostDiff (snapshot s.toCanvasModel) mutation nodeIds edgeIds).addedNodes
    with hadded
  have hmap : added.map (·.meaning) =
      (mutation.minted nodeIds edgeIds).add_nodes.map (·.unplaced) := map_ghostNodes _ _ _ _
  have hids : added.map (·.id) = (mutation.minted nodeIds edgeIds).add_nodes.map (·.id) := by
    have h := congrArg (List.map Node.id) hmap
    rw [List.map_map, List.map_map] at h
    exact h
  have hfound := congrArg (List.find? (fun node : Node Sub => node.id = k)) hmap
  rw [List.find?_map, List.find?_map] at hfound
  obtain ⟨position, hnodes⟩ : ∃ position, (s.editIntoOwn host mutation nodeIds edgeIds).nodes =
      placed (s.nodes.merge (·.id) added) position := ⟨_, rfl⟩
  rw [get?_graph_nodes, get?_graph_nodes, hnodes, placed, Dict.get?_mapValues,
    Dict.get?_merge _ (hids ▸ hnodup), Option.map_map, Option.map_map, Option.map_or,
    Option.map_or, Option.map_map]
  exact congrArg (fun found => found.or ((s.nodes.get? k).map (·.meaning))) hfound

theorem get?_editIntoOwn_edges
    (hnodup : ((mutation.minted nodeIds edgeIds).add_edges.map (·.id)).Nodup) (k : String) :
    (s.editIntoOwn host mutation nodeIds edgeIds).graph.edges.get? k =
      (((mutation.minted nodeIds edgeIds).add_edges.find? (·.id = k)).map
        ({ · with type_compatible := none })).or (s.graph.edges.get? k) := by
  set added := (computeGhostDiff (snapshot s.toCanvasModel) mutation nodeIds edgeIds).addedEdges
    with hadded
  have hmap : added.map (fun edge => (edgeToIR edge).filled) =
      (mutation.minted nodeIds edgeIds).add_edges.map ({ · with type_compatible := none }) := by
    simp only [hadded, computeGhostDiff, IRMutation.minted, List.mapIdx_eq_zipIdx_map,
      List.map_map]
    rfl
  have hids : added.map (·.id) = (mutation.minted nodeIds edgeIds).add_edges.map (·.id) := by
    have h := congrArg (List.map Edge.id) hmap
    rw [List.map_map, List.map_map] at h
    exact h
  have hfound := congrArg (List.find? (fun edge : Edge => edge.id = k)) hmap
  rw [List.find?_map, List.find?_map] at hfound
  have hedges : (s.editIntoOwn host mutation nodeIds edgeIds).edges =
      s.edges.merge (·.id) added := rfl
  rw [get?_graph_edges, get?_graph_edges, hedges, Dict.get?_merge _ (hids ▸ hnodup),
    Option.map_or]
  exact congrArg (fun found => found.or ((s.edges.get? k).map fun edge =>
    (edgeToIR edge).filled)) hfound

end Edit

/-! ## The law -/

/-- The same graph, up to the positions of its nodes. -/
structure SameGraph (c g : Graph Sub) : Prop where
  schema_version : c.schema_version = g.schema_version
  paradigm : c.paradigm = g.paradigm
  name : c.name = g.name
  params : c.params = g.params
  node : ∀ k, (c.nodes.get? k).map (·.unplaced) = (g.nodes.get? k).map (·.unplaced)
  edge : ∀ k, c.edges.get? k = g.edges.get? k

/-- The mutation adds and does nothing more: what it removes it adds again, what
it sets is set, and no edge it adds carries a compatibility note. -/
structure OnlyAdds (g : Graph Sub) (m : GraphMutation Sub) : Prop where
  nodes_back : ∀ k ∈ m.remove_nodes, k ∈ m.add_nodes.map (·.id)
  edges_back : ∀ k ∈ m.remove_edges, k ∈ m.add_edges.map (·.id)
  params_there : ∀ k updates node, m.set_params.get? k = some updates →
    edited_node g m k = some node → node.Holds updates
  unmarked : ∀ edge ∈ m.add_edges, edge.type_compatible = none

/-- The updates of a node, none if the mutation does not name it. -/
def updates_of (m : GraphMutation Sub) (k : String) : Dict String ParamValue :=
  (m.set_params.get? k).getD .empty

section Law

variable {reg : NodeRegistry} {g g' : Graph Sub} {m : GraphMutation Sub}
  {kept placed : Dict String (Node Sub)} {kept_edges : Dict String Edge}

/-- Every node of the result is the one that was left with its params set. -/
theorem get?_unplaced (ha : Applied reg g m kept placed kept_edges g') (k : String) :
    (g'.nodes.get? k).map (·.unplaced) =
      (edited_node g m k).map fun node => (node.with_params (updates_of m k)).unplaced := by
  obtain ⟨p, hp⟩ := get?_placed ha.removed ha.added k
  cases hset : m.set_params.get? k with
  | none =>
      have hnot : k ∉ m.set_params.keys := (Dict.get?_eq_none_iff _).mp hset
      have hnone : ∀ node : Node Sub, node.with_params (updates_of m k) = node := by
        intro node
        rw [Node.with_params_eq_self_iff, updates_of, hset]
        exact nofun
      rw [ha.params_set.frame k hnot, hp, Option.map_map]
      simp only [hnone]
      rfl
  | some updates =>
      obtain ⟨node, hnode, -, -, hfinal⟩ :=
        ha.params_set.here _ ((Dict.mem_entries_iff _).mpr hset)
      rw [hp] at hnode
      obtain ⟨node', hleft, rfl⟩ := Option.map_eq_some_iff.mp hnode
      rw [hfinal, hleft, updates_of, hset]
      rfl

/-- What is removed and not added again is missing, and only that. -/
theorem left_of_eq_or_iff {α : Type} {key : α → String} {removed : List String} {added : List α}
    {d : Dict String α} (hpresent : ∀ k ∈ removed, ∃ a, d.get? k = some a) :
    (∀ k, left_of key removed added d k = (added.find? (key · = k)).or (d.get? k)) ↔
      ∀ k ∈ removed, k ∈ added.map key := by
  constructor
  · intro h k hk
    obtain ⟨a, ha⟩ := hpresent k hk
    have hleft := h k
    rw [left_of, if_pos hk, ha, Option.or_none] at hleft
    by_contra hnot
    rw [Dict.find?_key_eq_none.mpr hnot] at hleft
    cases hleft
  · intro h k
    rw [left_of]
    split
    · rename_i hk
      cases hnone : added.find? (key · = k) with
      | none => exact absurd (h k hk) (Dict.find?_key_eq_none.mp hnone)
      | some a => rfl
    · rfl

theorem edge_iff (ha : Applied reg g m kept placed kept_edges g') :
    (∀ k, ((m.add_edges.find? (·.id = k)).map ({ · with type_compatible := none })).or
        (g.edges.get? k) = left_edge g m k) ↔
      (∀ k ∈ m.remove_edges, k ∈ m.add_edges.map (·.id)) ∧
        ∀ edge ∈ m.add_edges, edge.type_compatible = none := by
  have hback : (∀ k, left_edge g m k = (m.add_edges.find? (·.id = k)).or (g.edges.get? k)) ↔
      ∀ k ∈ m.remove_edges, k ∈ m.add_edges.map (·.id) :=
    left_of_eq_or_iff ha.removed_edges.present
  have hsame : (∀ edge ∈ m.add_edges, edge.type_compatible = none) → ∀ k,
      (m.add_edges.find? (·.id = k)).map ({ · with type_compatible := none }) =
        m.add_edges.find? (·.id = k) := by
    intro hunmarked k
    cases hfound : m.add_edges.find? (·.id = k) with
    | none => rfl
    | some edge =>
        have hnone := hunmarked edge (List.mem_of_find?_eq_some hfound)
        rw [Option.map_some, ← hnone]
  constructor
  · intro h
    have hunmarked : ∀ edge ∈ m.add_edges, edge.type_compatible = none := by
      intro edge hedge
      have hhere := h edge.id
      rw [left_edge, left_of, Dict.find?_key ha.added_edges.nodup hedge] at hhere
      exact (congrArg Edge.type_compatible (Option.some.inj hhere)).symm
    refine ⟨hback.mp fun k => ?_, hunmarked⟩
    rw [← h k, hsame hunmarked k]
  · rintro ⟨hedges, hunmarked⟩ k
    rw [hsame hunmarked k]
    exact (hback.mpr hedges k).symm

theorem node_iff (ha : Applied reg g m kept placed kept_edges g') :
    (∀ k, ((m.add_nodes.find? (·.id = k)).or (g.nodes.get? k)).map (·.unplaced) =
        (edited_node g m k).map fun node => (node.with_params (updates_of m k)).unplaced) ↔
      (∀ k ∈ m.remove_nodes, k ∈ m.add_nodes.map (·.id)) ∧
        ∀ k updates node, m.set_params.get? k = some updates → edited_node g m k = some node →
          node.Holds updates := by
  have hback : (∀ k, edited_node g m k = (m.add_nodes.find? (·.id = k)).or (g.nodes.get? k)) ↔
      ∀ k ∈ m.remove_nodes, k ∈ m.add_nodes.map (·.id) :=
    left_of_eq_or_iff ha.removed.present
  constructor
  · intro h
    have hnodes : ∀ k ∈ m.remove_nodes, k ∈ m.add_nodes.map (·.id) := by
      intro k hk
      -- a node that is removed and not added would still be on the canvas
      by_contra hnot
      obtain ⟨node, hnode⟩ := ha.removed.present k hk
      have hhere := h k
      rw [edited_node_of_not_added hnot, if_pos hk, hnode] at hhere
      cases hfound : m.add_nodes.find? (·.id = k) with
      | none => simp [hfound] at hhere
      | some added => simp [hfound] at hhere
    refine ⟨hnodes, fun k updates node hset hleft => ?_⟩
    have hhere := h k
    rw [← hback.mpr hnodes k, hleft, updates_of, hset,
      Option.map_some, Option.map_some] at hhere
    have hunplaced := Option.some.inj hhere
    have hparams : node.params = updated_params node.params updates :=
      congrArg Node.params hunplaced
    rw [← Node.with_params_eq_self_iff, Node.with_params, ← hparams]
  · rintro ⟨hnodes, hholds⟩ k
    rw [← hback.mpr hnodes k]
    cases hleft : edited_node g m k with
    | none => rfl
    | some node =>
        have hsame : node.with_params (updates_of m k) = node := by
          rw [Node.with_params_eq_self_iff, updates_of]
          cases hset : m.set_params.get? k with
          | none =>
              intro name value hvalue
              cases hvalue
          | some updates => exact hholds k updates node hset hleft
        rw [Option.map_some, Option.map_some, hsame]

end Law

/-- A canvas with one node. -/
def one_loaded : GraphStore Unit :=
  GraphStore.new.loadIR still_host
    { nodes := some (Dict.empty.set "a" { id := some "a", type := "t" }) } false

/-- Another node beside it, without an id. -/
def node_beside : IRMutation Unit where
  base_version := 0
  add_nodes := some [{ type := "t", position := some { x := some 1 } }]

def node_removed : IRMutation Unit where
  base_version := 0
  remove_nodes := some ["a"]

def fresh_ids : Nat → String := fun i => "fresh_" ++ toString i

end Canvas

end EmergentFlow
