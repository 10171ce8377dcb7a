import EmergentFlow.Ui.Layered
import Mathlib.Data.List.Pairwise
import Mathlib.Tactic.Linarith
import Mathlib.Tactic.NormNum
import Mathlib.Tactic.Tauto

/-!
# Ui — LayeredLaw

What the layered layouts give for every model. The layers are those of `Layers.settle`
over the edges between nodes, so they exist on every set of edges and are longest walks
where there is no cycle (`layering`). The first pass never puts two nodes on one place
(`place_apart`). The second pass keeps ordinary nodes apart exactly when the cells it
moves them to are `Clear`.
-/

namespace EmergentFlow.Layout

open Canvas

variable {Sub : Type}

/-! ## Layers -/

/-- The edges whose ends are both nodes. -/
def links (nodes : Dict String (NodeModel Sub)) (edges : List EdgeModel) : List (String × String) :=
  (edges.map fun edge => (edge.source.node_id, edge.target.node_id)).filter fun link =>
    nodes.contains link.1 && nodes.contains link.2

/-- A pass over the dictionary shows a pass over the function of its layers. -/
structure Shows (nodes : Dict String (NodeModel Sub)) (st : Dict String Nat × Bool)
    (shown : (String → Nat) × Bool) : Prop where
  keys : st.1.keys = nodes.keys
  layer : layerAt st.1 = shown.1
  flag : st.2 = shown.2

variable {nodes : Dict String (NodeModel Sub)}

theorem layerAt_of_get? {layer : Dict String Nat} {id : String} {n : Nat}
    (h : layer.get? id = some n) : layerAt layer id = n := by
  rw [layerAt, h]
  rfl

theorem layerAt_set (layer : Dict String Nat) (id : String) (n : Nat) :
    layerAt (layer.set id n) = Function.update (layerAt layer) id n := by
  funext id'
  rw [layerAt, Dict.get?_set, Function.update_apply]
  by_cases hid : id = id'
  · simp [hid]
  · simp [hid, Ne.symm hid, layerAt]

theorem Shows.relax {st : Dict String Nat × Bool} {shown : (String → Nat) × Bool}
    (h : Shows nodes st shown) (edge : EdgeModel) :
    Shows nodes (relaxEdge st edge) ((links nodes [edge]).foldl Layers.pushMark shown) := by
  obtain ⟨layer, changed⟩ := st
  obtain ⟨view, flag⟩ := shown
  obtain ⟨hkeys, rfl, rfl⟩ := h
  have hcontains (id : String) : nodes.contains id = (layer.get? id).isSome := by
    rw [Bool.eq_iff_iff, Dict.contains_iff, ← Dict.mem_keys_iff, ← Dict.mem_keys_iff_isSome, hkeys]
  rw [relaxEdge, links, List.map_singleton, List.filter_singleton, hcontains, hcontains]
  cases hsrc : layer.get? edge.source.node_id with
  | none => exact ⟨hkeys, rfl, rfl⟩
  | some src =>
      cases hdst : layer.get? edge.target.node_id with
      | none => exact ⟨hkeys, rfl, rfl⟩
      | some dst =>
          show Shows nodes (if dst < src + 1 then _ else _) (Layers.pushMark _ _)
          rw [Layers.pushMark]
          simp only [layerAt_of_get? hsrc, layerAt_of_get? hdst]
          split
          next =>
            have hmem := (Dict.mem_keys_iff layer).mpr ⟨dst, hdst⟩
            exact ⟨(Dict.keys_set_of_mem _ _ hmem).trans hkeys, layerAt_set .., rfl⟩
          next => exact ⟨hkeys, rfl, rfl⟩

theorem Shows.pass {st : Dict String Nat × Bool} {shown : (String → Nat) × Bool}
    (h : Shows nodes st shown) (edges : List EdgeModel) :
    Shows nodes (edges.foldl relaxEdge st) ((links nodes edges).foldl Layers.pushMark shown) := by
  induction edges generalizing st shown with
  | nil => exact h
  | cons edge edges ih =>
      have hlinks : links nodes (edge :: edges) = links nodes [edge] ++ links nodes edges := by
        rw [links, links, links, ← List.filter_append, ← List.map_append]
        rfl
      rw [List.foldl_cons, hlinks, List.foldl_append]
      exact ih (h.relax edge)

theorem relaxLayers_shows {layer : Dict String Nat} (hkeys : layer.keys = nodes.keys)
    (edges : List EdgeModel) (n : Nat) :
    (relaxLayers edges n layer).keys = nodes.keys ∧
      layerAt (relaxLayers edges n layer) =
        Layers.settle (links nodes edges) n (layerAt layer) := by
  induction n generalizing layer with
  | zero => exact ⟨hkeys, rfl⟩
  | succ n ih =>
      have hshows : Shows nodes (layer, false) (layerAt layer, false) := ⟨hkeys, rfl, rfl⟩
      have hpass := hshows.pass edges
      rw [relaxLayers, Layers.settle, ← hpass.flag, ← hpass.layer]
      cases (edges.foldl relaxEdge (layer, false)).2 with
      | true => exact ih hpass.keys
      | false => exact ⟨hpass.keys, rfl⟩

/-- What the layers owe to the edges: every node has one after at most as many passes as
there are nodes, and without cycles they are the lengths of the longest walks. -/
structure Layering (nodes : Dict String (NodeModel Sub)) (edges : Dict String EdgeModel)
    (layer : Dict String Nat) : Prop where
  keys : layer.keys = nodes.keys
  passes : ∃ n ≤ nodes.keys.length,
    layerAt layer = (Layers.pass (links nodes edges.values))^[n] fun _ => 0
  increases : Closure.Acyclic (fun a b => (a, b) ∈ links nodes edges.values) →
    ∀ link ∈ links nodes edges.values, layerAt layer link.1 < layerAt layer link.2
  longest : Closure.Acyclic (fun a b => (a, b) ∈ links nodes edges.values) →
    ∀ id ∈ nodes.keys,
      IsGreatest {n | Layers.Walk (links nodes edges.values) n id} (layerAt layer id)

theorem layering (nodes : Dict String (NodeModel Sub)) (edges : Dict String EdgeModel) :
    Layering nodes edges (layersOf nodes edges) := by
  have hstart : layerAt (nodes.mapValues fun _ _ => 0) = fun _ => 0 := by
    funext id
    rw [layerAt, Dict.get?_mapValues]
    cases nodes.get? id <;> rfl
  have hzero : (nodes.mapValues fun _ _ => 0).keys = nodes.keys := Dict.keys_mapValues _ nodes
  obtain ⟨hkeys, hlayer⟩ := relaxLayers_shows hzero edges.values nodes.keys.length
  rw [hstart] at hlayer
  have hlinks : ∀ link ∈ links nodes edges.values, link.1 ∈ nodes.keys := by
    intro link hlink
    have hboth := (List.mem_filter.mp hlink).2
    rw [Bool.and_eq_true] at hboth
    rw [Dict.mem_keys_iff, ← Dict.contains_iff]
    exact hboth.1
  refine ⟨hkeys, ⟨_, le_rfl, ?_⟩, fun hacyclic link hlink => ?_, fun hacyclic id _ => ?_⟩
  · rw [layersOf, hlayer, Layers.settle_eq]
  · rw [layersOf, hlayer]
    exact Layers.settle_lt hacyclic hlinks hlink
  · rw [layersOf, hlayer]
    exact Layers.settle_greatest hacyclic hlinks id

/-! ## The first pass -/

section Place

variable {κ : Type} [LinearOrder κ] {grid : Grid κ} {layer : Dict String Nat}

/-- A grid whose spots tell layers and counters apart and whose counters grow on these layers. -/
structure Grid.Spread (grid : Grid κ) (layers : Set Nat) : Prop where
  next_lt : ∀ l ∈ layers, ∀ c, c < grid.next l c
  spot_inj : ∀ l c l' c', grid.spot l c = grid.spot l' c' → l = l' ∧ c = c'

/-- The state when some nodes have been placed. -/
structure Placed (grid : Grid κ) (layer : Dict String Nat) (done : List (String × NodeModel Sub))
    (st : Dict Nat κ × Dict String (NodeModel Sub)) : Prop where
  carried : ∀ id node, (id, node) ∈ done → ∃ c < counterAt grid st.1 (layerAt layer id),
    st.2.get? id = some { node with position := grid.spot (layerAt layer id) c }
  keys : ∀ id ∈ st.2.keys, id ∈ done.map Prod.fst
  apart : ∀ id id' node node', st.2.get? id = some node → st.2.get? id' = some node' →
    node.position = node'.position → id = id'

omit [LinearOrder κ] in
theorem counterAt_placeNode (st : Dict Nat κ × Dict String (NodeModel Sub))
    (entry : String × NodeModel Sub) (l : Nat) :
    counterAt grid (placeNode grid layer st entry).1 l =
      if layerAt layer entry.1 = l then
        grid.next (layerAt layer entry.1) (counterAt grid st.1 (layerAt layer entry.1))
      else counterAt grid st.1 l := by
  rw [counterAt, placeNode, Dict.get?_set, apply_ite (Option.getD · grid.start)]
  rfl

omit [LinearOrder κ] in
theorem get?_placeNode (st : Dict Nat κ × Dict String (NodeModel Sub))
    (entry : String × NodeModel Sub) (id : String) :
    (placeNode grid layer st entry).2.get? id =
      if entry.1 = id then
        some { entry.2 with
          position := grid.spot (layerAt layer entry.1)
            (counterAt grid st.1 (layerAt layer entry.1)) }
      else st.2.get? id :=
  Dict.get?_set ..

/-- The spot of the next node is past all spots of its layer. -/
theorem Placed.spot_fresh {layers : Set Nat} (hgrid : grid.Spread layers)
    {done : List (String × NodeModel Sub)} {st : Dict Nat κ × Dict String (NodeModel Sub)}
    (h : Placed grid layer done st) (l : Nat) {id : String} {node : NodeModel Sub}
    (hget : st.2.get? id = some node) :
    node.position ≠ grid.spot l (counterAt grid st.1 l) := by
  intro heq
  obtain ⟨⟨_, placedNode⟩, hmem, rfl⟩ := List.mem_map.mp
    (h.keys id ((Dict.mem_keys_iff _).mpr ⟨node, hget⟩))
  obtain ⟨c, hc, hspot⟩ := h.carried _ placedNode hmem
  cases hspot.symm.trans hget
  obtain ⟨rfl, rfl⟩ := hgrid.spot_inj _ _ _ _ heq
  exact lt_irrefl _ hc

theorem Placed.step {layers : Set Nat} (hgrid : grid.Spread layers)
    {done : List (String × NodeModel Sub)} {st : Dict Nat κ × Dict String (NodeModel Sub)}
    (h : Placed grid layer done st) {entry : String × NodeModel Sub}
    (hlayer : layerAt layer entry.1 ∈ layers) (hnew : entry.1 ∉ done.map Prod.fst) :
    Placed grid layer (done ++ [entry]) (placeNode grid layer st entry) := by
  have hgrows := hgrid.next_lt _ hlayer (counterAt grid st.1 (layerAt layer entry.1))
  have hfresh : ∀ {id node}, st.2.get? id = some node → node.position ≠ _ :=
    fun hget => h.spot_fresh hgrid (layerAt layer entry.1) hget
  refine ⟨?_, ?_, ?_⟩
  · intro id node hmem
    rcases List.mem_append.mp hmem with hmem | hmem
    · obtain ⟨c, hc, hget⟩ := h.carried id node hmem
      have hne : entry.1 ≠ id := fun heq => hnew (heq ▸ List.mem_map_of_mem hmem)
      refine ⟨c, ?_, by rw [get?_placeNode, if_neg hne, hget]⟩
      rw [counterAt_placeNode]
      split
      next hl =>
        rw [hl] at hgrows ⊢
        exact hc.trans hgrows
      next => exact hc
    · cases List.mem_singleton.mp hmem
      exact ⟨_, by rw [counterAt_placeNode, if_pos rfl]; exact hgrows,
        by rw [get?_placeNode, if_pos rfl]⟩
  · intro id hid
    rw [List.map_append, List.mem_append]
    rcases (Dict.mem_keys_set st.2 _).mp hid with rfl | hid
    · exact .inr List.mem_cons_self
    · exact .inl (h.keys id hid)
  · -- the place just taken was free
    intro id id' node node' hget hget' heq
    rw [get?_placeNode] at hget hget'
    by_cases hid : entry.1 = id
    · by_cases hid' : entry.1 = id'
      · exact hid.symm.trans hid'
      · rw [if_pos hid] at hget
        rw [if_neg hid'] at hget'
        cases hget
        exact absurd heq.symm (hfresh hget')
    · by_cases hid' : entry.1 = id'
      · rw [if_neg hid] at hget
        rw [if_pos hid'] at hget'
        cases hget'
        exact absurd heq (hfresh hget)
      · rw [if_neg hid] at hget
        rw [if_neg hid'] at hget'
        exact h.apart _ _ _ _ hget hget' heq

theorem Placed.run {layers : Set Nat} (hgrid : grid.Spread layers)
    {done rest : List (String × NodeModel Sub)} {st : Dict Nat κ × Dict String (NodeModel Sub)}
    (h : Placed grid layer done st) (hnodup : ((done ++ rest).map Prod.fst).Nodup)
    (hlayers : ∀ id ∈ rest.map Prod.fst, layerAt layer id ∈ layers) :
    Placed grid layer (done ++ rest) (rest.foldl (placeNode grid layer) st) := by
  induction rest generalizing done st with
  | nil => rwa [List.append_nil]
  | cons entry rest ih =>
      rw [List.map_cons, List.forall_mem_cons] at hlayers
      rw [List.append_cons] at hnodup ⊢
      have hnew : entry.1 ∉ done.map Prod.fst := by
        rw [List.append_assoc, List.map_append, List.nodup_append] at hnodup
        exact fun hmem => hnodup.2.2 _ hmem _ (List.mem_cons_self) rfl
      exact ih (h.step hgrid hlayers.1 hnew) hnodup hlayers.2

theorem placed {layers : Set Nat} (hgrid : grid.Spread layers)
    (hlayers : ∀ id ∈ nodes.keys, layerAt layer id ∈ layers) :
    Placed grid layer nodes.entries
      (nodes.entries.foldl (placeNode grid layer) (.empty, .empty)) := by
  have hstart : Placed grid layer ([] : List (String × NodeModel Sub)) (.empty, .empty) :=
    { carried := fun _ _ hmem => absurd hmem List.not_mem_nil
      keys := fun _ hid => hid
      apart := fun _ _ _ _ hget => by cases hget }
  have hnodup : (([] ++ nodes.entries).map Prod.fst).Nodup := nodes.nodup_keys
  exact hstart.run hgrid hnodup hlayers

end Place

/-! ## The two grids -/

theorem layeredGrid_spread : layeredGrid.Spread Set.univ where
  next_lt _ _ row := Nat.lt_succ_self row
  spot_inj l row l' row' h := by
    simp only [layeredGrid, COLUMN_WIDTH, ROW_HEIGHT, Position.mk.injEq] at h
    constructor
    · have hx : (l : Rat) = l' := by linarith [h.1]
      exact_mod_cast hx
    · have hy : (row : Rat) = row' := by linarith [h.2]
      exact_mod_cast hy

theorem le_foldl_max (l : List Rat) (q : Rat) : q ≤ l.foldl max q := by
  induction l generalizing q with
  | nil => exact le_rfl
  | cons r l ih => exact (le_max_left q r).trans (ih (max q r))

theorem columnPitch_pos (nodes : Dict String (NodeModel Sub)) : 0 < columnPitch nodes := by
  have hmax := le_foldl_max (nodes.values.map fun node => (nodeFootprint node).width)
    EXPANDED_COLUMN_MIN
  simp only [columnPitch, EXPANDED_COLUMN_PADDING]
  have hmin : (0 : Rat) < EXPANDED_COLUMN_MIN := by norm_num [EXPANDED_COLUMN_MIN]
  linarith

theorem mem_keys_foldl_raiseLayer (layer : Dict String Nat)
    (entries : List (String × NodeModel Sub)) (heights : Dict Nat Rat) {l : Nat} :
    l ∈ (entries.foldl (raiseLayer layer) heights).keys ↔
      l ∈ heights.keys ∨ ∃ entry ∈ entries, layerAt layer entry.1 = l := by
  induction entries generalizing heights with
  | nil => simp
  | cons entry entries ih =>
      rw [List.foldl_cons, ih, raiseLayer, Dict.mem_keys_set, List.exists_mem_cons_iff]
      tauto

/-- Every layer with nodes has a pitch. -/
theorem rowPitch_pos {layer : Dict String Nat} {id : String} (hid : id ∈ nodes.keys) :
    0 < ((rowPitch layer nodes).get? (layerAt layer id)).getD 0 := by
  obtain ⟨node, hnode⟩ := (Dict.mem_keys_iff nodes).mp hid
  have hmem := (mem_keys_foldl_raiseLayer layer nodes.entries .empty).mpr
    (.inr ⟨(id, node), (Dict.mem_entries_iff nodes).mpr hnode, rfl⟩)
  obtain ⟨height, hheight⟩ := (Dict.mem_keys_iff _).mp hmem
  rw [rowPitch, Dict.get?_mapValues, hheight]
  show 0 < max (height + EXPANDED_ROW_PADDING) (EXPANDED_ROW_MIN + EXPANDED_ROW_PADDING)
  exact lt_max_of_lt_right (by norm_num [EXPANDED_ROW_MIN, EXPANDED_ROW_PADDING])

theorem expandGrid_spread (layer : Dict String Nat) (nodes : Dict String (NodeModel Sub)) :
    (expandGrid layer nodes).Spread {l | ∃ id ∈ nodes.keys, layerAt layer id = l} where
  next_lt := by
    rintro _ ⟨id, hid, rfl⟩ y
    have hpos := @rowPitch_pos _ nodes layer _ hid
    show y < y + _
    linarith
  spot_inj l y l' y' h := by
    simp only [expandGrid, Position.mk.injEq] at h
    refine ⟨?_, h.2⟩
    have hx := mul_right_cancel₀ (columnPitch_pos nodes).ne' h.1
    exact_mod_cast hx

/-! ## The second pass -/

/-- A node that is no group. -/
def Ordinary (nodes : Dict String (NodeModel Sub)) (id : String) : Prop :=
  ∃ node, nodes.get? id = some node ∧ node.type ≠ GROUP_NODE_TYPE

/-- No two ordinary nodes are at one place. -/
def Distinct (nodes : Dict String (NodeModel Sub)) : Prop :=
  ∀ id id' node node', nodes.get? id = some node → nodes.get? id' = some node' →
    node.type ≠ GROUP_NODE_TYPE → node'.type ≠ GROUP_NODE_TYPE →
    node.position = node'.position → id = id'

/-- The group is a group node, so its members are packed. -/
def Resolves (result : Dict String (NodeModel Sub)) (groupId : String) : Prop :=
  ∃ groupNode, result.get? groupId = some groupNode ∧ groupNode.type = GROUP_NODE_TYPE

instance (result : Dict String (NodeModel Sub)) (groupId : String) :
    Decidable (Resolves result groupId) :=
  match h : result.get? groupId with
  | none => isFalse fun ⟨_, hget, _⟩ => nomatch h.symm.trans hget
  | some groupNode =>
      decidable_of_iff (groupNode.type = GROUP_NODE_TYPE) (by simp [Resolves, h])

/-- The clusters that are packed: the middle that the members of each group have when its
turn comes, and the members. -/
def clusters : List (String × List String) → Dict String (NodeModel Sub) →
    List (Position × List String)
  | [], _ => []
  | group :: groups, result =>
      if Resolves result group.1 then
        (centroid result group.2, group.2) :: clusters groups (packGroup result group)
      else clusters groups result

/-- Two clusters have no cell for an ordinary node in common. -/
def CellsApart (grid : Dict String (NodeModel Sub)) (c c' : Position × List String) : Prop :=
  ∀ (i i' : Nat) (member member' : String), c.2[i]? = some member → c'.2[i']? = some member' →
    Ordinary grid member → Ordinary grid member' → cell c.1 i ≠ cell c'.1 i'

instance (grid : Dict String (NodeModel Sub)) : Std.Symm (CellsApart grid) where
  symm _ _ h i i' member member' hi hi' hord hord' heq :=
    h i' i member' member hi' hi hord' hord heq.symm

/-- No cluster has a cell for an ordinary node where an ordinary node outside all clusters
is, or where another cluster has one. -/
structure Clear (grid : Dict String (NodeModel Sub)) (cs : List (Position × List String)) :
    Prop where
  loose : ∀ c ∈ cs, ∀ (i : Nat) (member : String), c.2[i]? = some member → Ordinary grid member →
    ∀ id node, grid.get? id = some node → node.type ≠ GROUP_NODE_TYPE → (∀ c' ∈ cs, id ∉ c'.2) →
    cell c.1 i ≠ node.position
  clusters : cs.Pairwise (CellsApart grid)

theorem cell_inj {corner : Position} {i j : Nat} (h : cell corner i = cell corner j) : i = j := by
  simp only [cell, GROUP_MEMBER_COLUMNS, GROUP_MEMBER_COLUMN_WIDTH, GROUP_MEMBER_ROW_HEIGHT,
    Position.mk.injEq] at h
  have hcolumn : ((i % 2 : Nat) : Rat) = (j % 2 : Nat) := by linarith [h.1]
  have hrow : ((i / 2 : Nat) : Rat) = (j / 2 : Nat) := by linarith [h.2]
  have hmod : i % 2 = j % 2 := by exact_mod_cast hcolumn
  have hdiv : i / 2 = j / 2 := by exact_mod_cast hrow
  omega

/-! ## One group -/

theorem get?_packed_of_notMem {corner : Position} {members : List String} {id : String}
    (hid : id ∉ members) (k : Nat) (result : Dict String (NodeModel Sub)) :
    ((members.zipIdx k).foldl (packMember corner) result).get? id = result.get? id := by
  induction members generalizing k result with
  | nil => rfl
  | cons member members ih =>
      rw [List.mem_cons, not_or] at hid
      rw [List.zipIdx_cons, List.foldl_cons, ih hid.2, packMember, Dict.get?_modify,
        if_neg (Ne.symm hid.1)]

theorem get?_packed {corner : Position} {members : List String} (hnodup : members.Nodup) {i : Nat}
    {id : String} (hid : members[i]? = some id) (k : Nat) (result : Dict String (NodeModel Sub)) :
    ((members.zipIdx k).foldl (packMember corner) result).get? id =
      (result.get? id).map fun node => { node with position := cell corner (k + i) } := by
  induction members generalizing i k result with
  | nil => cases hid
  | cons member members ih =>
      obtain ⟨hnew, hnodup⟩ := List.nodup_cons.mp hnodup
      rw [List.zipIdx_cons, List.foldl_cons]
      cases i with
      | zero =>
          cases hid
          rw [get?_packed_of_notMem hnew, packMember, Dict.get?_modify, if_pos rfl]
          rfl
      | succ i =>
          have hid : members[i]? = some id := hid
          have hne : member ≠ id := fun heq => hnew (heq ▸ List.mem_of_getElem? hid)
          rw [ih hnodup hid, packMember, Dict.get?_modify, if_neg hne, Nat.add_right_comm,
            Nat.add_assoc]

theorem packGroup_of_not {result : Dict String (NodeModel Sub)} {group : String × List String}
    (h : ¬ Resolves result group.1) : packGroup result group = result := by
  rw [packGroup]
  cases hget : result.get? group.1 with
  | none => rfl
  | some groupNode => exact if_pos fun htype => h ⟨groupNode, hget, htype⟩

/-- Packing moves an ordinary node only if it is a member. -/
theorem get?_packGroup {result : Dict String (NodeModel Sub)} {group : String × List String}
    (h : Resolves result group.1) {id : String} (hid : group.1 ≠ id) :
    (packGroup result group).get? id =
      ((group.2.zipIdx).foldl (packMember (centroid result group.2)) result).get? id := by
  obtain ⟨groupNode, hget, htype⟩ := h
  rw [packGroup, hget]
  simp only [htype, ne_eq, not_true, if_false]
  exact Dict.get?_set_ne _ _ hid

/-! ## Types stay -/

def typeAt (result : Dict String (NodeModel Sub)) (id : String) : Option String :=
  (result.get? id).map (·.type)

theorem resolves_iff {result : Dict String (NodeModel Sub)} {id : String} :
    Resolves result id ↔ typeAt result id = some GROUP_NODE_TYPE := by
  rw [Resolves, typeAt, Option.map_eq_some_iff]

theorem ordinary_iff {result : Dict String (NodeModel Sub)} {id : String} :
    Ordinary result id ↔ ∃ type, typeAt result id = some type ∧ type ≠ GROUP_NODE_TYPE := by
  constructor
  · rintro ⟨node, hget, htype⟩
    exact ⟨node.type, by rw [typeAt, hget]; rfl, htype⟩
  · rintro ⟨type, hat, htype⟩
    obtain ⟨node, hget, rfl⟩ := Option.map_eq_some_iff.mp hat
    exact ⟨node, hget, htype⟩

theorem typeAt_packed (corner : Position) (members : List (String × Nat))
    (result : Dict String (NodeModel Sub)) (id : String) :
    typeAt (members.foldl (packMember corner) result) id = typeAt result id := by
  induction members generalizing result with
  | nil => rfl
  | cons member members ih =>
      rw [List.foldl_cons, ih, typeAt, packMember, Dict.get?_modify, typeAt]
      split
      next => rw [Option.map_map]; rfl
      next => rfl

theorem typeAt_packGroup (result : Dict String (NodeModel Sub)) (group : String × List String)
    (id : String) : typeAt (packGroup result group) id = typeAt result id := by
  by_cases h : Resolves result group.1
  · by_cases hid : group.1 = id
    · have htype := resolves_iff.mp h
      obtain ⟨groupNode, hget, hgroup⟩ := h
      rw [← hid, htype, typeAt, packGroup, hget]
      simp only [hgroup, ne_eq, not_true, if_false, Dict.get?_set_self, Option.map_some]
    · rw [typeAt, get?_packGroup h hid]
      exact typeAt_packed ..
  · rw [packGroup_of_not h]

theorem ordinary_packGroup (result : Dict String (NodeModel Sub)) (group : String × List String)
    (id : String) : Ordinary (packGroup result group) id ↔ Ordinary result id := by
  simp only [ordinary_iff, typeAt_packGroup]

theorem not_resolves_of_ordinary {result : Dict String (NodeModel Sub)} {id : String}
    (h : Ordinary result id) {groupId : String} (hgroup : Resolves result groupId) :
    groupId ≠ id := by
  rintro rfl
  obtain ⟨type, hat, htype⟩ := ordinary_iff.mp h
  exact htype (Option.some.inj (hat.symm.trans (resolves_iff.mp hgroup)))

/-! ## All groups -/

/-- Where an ordinary node in no cluster ends: where it is. -/
theorem get?_groups_of_notMem {groups : List (String × List String)}
    {result : Dict String (NodeModel Sub)} {id : String} (hid : Ordinary result id)
    (hout : ∀ c ∈ clusters groups result, id ∉ c.2) :
    (groups.foldl packGroup result).get? id = result.get? id := by
  induction groups generalizing result with
  | nil => rfl
  | cons group groups ih =>
      rw [List.foldl_cons]
      rw [clusters] at hout
      by_cases h : Resolves result group.1
      · rw [if_pos h, List.forall_mem_cons] at hout
        rw [ih ((ordinary_packGroup ..).mpr hid) hout.2,
          get?_packGroup h (not_resolves_of_ordinary hid h)]
        exact get?_packed_of_notMem hout.1 0 result
      · rw [if_neg h] at hout
        rw [packGroup_of_not h]
        exact ih hid hout

theorem mem_of_mem_clusters {groups : List (String × List String)}
    {result : Dict String (NodeModel Sub)} {c : Position × List String}
    (h : c ∈ clusters groups result) : ∃ group ∈ groups, group.2 = c.2 := by
  induction groups generalizing result with
  | nil => cases h
  | cons group groups ih =>
      rw [clusters] at h
      split at h
      · rcases List.mem_cons.mp h with rfl | h
        · exact ⟨group, List.mem_cons_self, rfl⟩
        · obtain ⟨g, hg, heq⟩ := ih h
          exact ⟨g, List.mem_cons_of_mem _ hg, heq⟩
      · obtain ⟨g, hg, heq⟩ := ih h
        exact ⟨g, List.mem_cons_of_mem _ hg, heq⟩

/-- Where a member of a cluster ends: in its cell. -/
theorem get?_groups_of_mem {groups : List (String × List String)}
    (hnodup : (groups.map Prod.snd).flatten.Nodup) {result : Dict String (NodeModel Sub)}
    {id : String} (hid : Ordinary result id) {c : Position × List String}
    (hc : c ∈ clusters groups result) {i : Nat} (hi : c.2[i]? = some id) :
    (groups.foldl packGroup result).get? id =
      (result.get? id).map fun node => { node with position := cell c.1 i } := by
  induction groups generalizing result with
  | nil => cases hc
  | cons group groups ih =>
      rw [List.map_cons, List.flatten_cons, List.nodup_append] at hnodup
      obtain ⟨hmembers, hrest, hapart⟩ := hnodup
      have hlater : ∀ group' ∈ groups, id ∈ group'.2 → id ∉ group.2 := fun group' hg hmem hin =>
        hapart id hin id (List.mem_flatten.mpr ⟨_, List.mem_map_of_mem hg, hmem⟩) rfl
      rw [List.foldl_cons]
      rw [clusters] at hc
      by_cases h : Resolves result group.1
      · rw [if_pos h] at hc
        have hpack := get?_packGroup h (not_resolves_of_ordinary hid h)
        have hord := (ordinary_packGroup result group id).mpr hid
        rcases List.mem_cons.mp hc with rfl | hc
        · have hin := List.mem_of_getElem? hi
          -- the later groups have other members, so they leave this one where it is
          have hout : ∀ c ∈ clusters groups (packGroup result group), id ∉ c.2 := by
            intro c hc hmem
            obtain ⟨group', hg, heq⟩ := mem_of_mem_clusters hc
            exact hlater group' hg (heq ▸ hmem) hin
          rw [get?_groups_of_notMem hord hout, hpack, get?_packed hmembers hi, Nat.zero_add]
        · obtain ⟨group', hg, heq⟩ := mem_of_mem_clusters hc
          have hout := hlater group' hg (heq ▸ List.mem_of_getElem? hi)
          rw [ih hrest hord hc, hpack, get?_packed_of_notMem hout]
      · rw [if_neg h] at hc
        rw [packGroup_of_not h]
        exact ih hrest hid hc

theorem centroid_congr {result result' : Dict String (NodeModel Sub)} {members : List String}
    (h : ∀ id ∈ members, result.get? id = result'.get? id) :
    centroid result members = centroid result' members := by
  have hpositions : members.filterMap (fun id => (result.get? id).map (·.position)) =
      members.filterMap fun id => (result'.get? id).map (·.position) :=
    List.filterMap_congr fun id hid => by rw [h id hid]
  simp only [centroid, hpositions]

/-! ## Distinct places -/

theorem typeAt_groups (groups : List (String × List String)) (result : Dict String (NodeModel Sub))
    (id : String) : typeAt (groups.foldl packGroup result) id = typeAt result id := by
  induction groups generalizing result with
  | nil => rfl
  | cons group groups ih => rw [List.foldl_cons, ih, typeAt_packGroup]

theorem sublist_clusters (groups : List (String × List String))
    (result : Dict String (NodeModel Sub)) :
    ((clusters groups result).map Prod.snd).Sublist (groups.map Prod.snd) := by
  induction groups generalizing result with
  | nil => exact .slnil
  | cons group groups ih =>
      rw [clusters]
      split
      · exact (ih _).cons_cons _
      · exact (ih _).cons _

theorem clusters_disjoint {groups : List (String × List String)}
    (hnodup : (groups.map Prod.snd).flatten.Nodup) (result : Dict String (NodeModel Sub)) :
    (clusters groups result).Pairwise fun c c' => c.2.Disjoint c'.2 :=
  List.pairwise_map.mp ((List.nodup_flatten.mp hnodup).2.sublist (sublist_clusters groups result))

/-- Where an ordinary node ends. -/
theorem ends {groups : List (String × List String)}
    (hnodup : (groups.map Prod.snd).flatten.Nodup) {grid : Dict String (NodeModel Sub)}
    {id : String} {node : NodeModel Sub} (hget : (groups.foldl packGroup grid).get? id = some node)
    (htype : node.type ≠ GROUP_NODE_TYPE) :
    ∃ origin, grid.get? id = some origin ∧ origin.type ≠ GROUP_NODE_TYPE ∧
      ((∀ c ∈ clusters groups grid, id ∉ c.2) ∧ node.position = origin.position ∨
        ∃ c ∈ clusters groups grid, ∃ i : Nat, c.2[i]? = some id ∧ node.position = cell c.1 i) := by
  have hat := typeAt_groups groups grid id
  rw [typeAt, hget] at hat
  obtain ⟨origin, horigin, hsame⟩ := Option.map_eq_some_iff.mp hat.symm
  have hsame : origin.type = node.type := hsame
  rw [← hsame] at htype
  refine ⟨origin, horigin, htype, ?_⟩
  have hid : Ordinary grid id := ⟨origin, horigin, htype⟩
  by_cases hout : ∀ c ∈ clusters groups grid, id ∉ c.2
  · rw [get?_groups_of_notMem hid hout, horigin] at hget
    cases hget
    exact .inl ⟨hout, rfl⟩
  · push Not at hout
    obtain ⟨c, hc, hmem⟩ := hout
    obtain ⟨i, hi⟩ := List.getElem?_of_mem hmem
    rw [get?_groups_of_mem hnodup hid hc hi, horigin] at hget
    cases hget
    exact .inr ⟨c, hc, i, hi, rfl⟩

/-- The cell of an ordinary member is where it ends. -/
theorem exists_at_cell {groups : List (String × List String)}
    (hnodup : (groups.map Prod.snd).flatten.Nodup) {grid : Dict String (NodeModel Sub)}
    {c : Position × List String} (hc : c ∈ clusters groups grid) {i : Nat} {member : String}
    (hi : c.2[i]? = some member) (hord : Ordinary grid member) :
    ∃ node, (groups.foldl packGroup grid).get? member = some node ∧
      node.type ≠ GROUP_NODE_TYPE ∧ node.position = cell c.1 i := by
  have hget := get?_groups_of_mem hnodup hord hc hi
  obtain ⟨origin, horigin, htype⟩ := hord
  rw [horigin] at hget
  exact ⟨_, hget, htype, rfl⟩

theorem clear_of_distinct {groups : List (String × List String)}
    (hnodup : (groups.map Prod.snd).flatten.Nodup) {grid : Dict String (NodeModel Sub)}
    (h : Distinct (groups.foldl packGroup grid)) : Clear grid (clusters groups grid) := by
  refine ⟨?_, (clusters_disjoint hnodup grid).imp_of_mem ?_⟩
  · intro c hc i member hi hord id node hget htype hout heq
    obtain ⟨node', hget', htype', hposition⟩ := exists_at_cell hnodup hc hi hord
    have hloose := get?_groups_of_notMem ⟨node, hget, htype⟩ hout
    cases h _ _ _ _ hget' (hloose.trans hget) htype' htype (hposition.trans heq)
    exact hout c hc (List.mem_of_getElem? hi)
  · intro c c' hc hc' hdisjoint i i' member member' hi hi' hord hord' heq
    obtain ⟨node, hget, htype, hposition⟩ := exists_at_cell hnodup hc hi hord
    obtain ⟨node', hget', htype', hposition'⟩ := exists_at_cell hnodup hc' hi' hord'
    have hsame := hposition.trans (heq.trans hposition'.symm)
    cases h _ _ _ _ hget hget' htype htype' hsame
    exact hdisjoint (List.mem_of_getElem? hi) (List.mem_of_getElem? hi')

theorem distinct_of_clear {groups : List (String × List String)}
    (hnodup : (groups.map Prod.snd).flatten.Nodup) {grid : Dict String (NodeModel Sub)}
    (hgrid : ∀ id id' node node', grid.get? id = some node → grid.get? id' = some node' →
      node.position = node'.position → id = id')
    (h : Clear grid (clusters groups grid)) : Distinct (groups.foldl packGroup grid) := by
  intro id id' node node' hget hget' htype htype' heq
  obtain ⟨origin, horigin, hord, hplace⟩ := ends hnodup hget htype
  obtain ⟨origin', horigin', hord', hplace'⟩ := ends hnodup hget' htype'
  rcases hplace with ⟨hout, hposition⟩ | ⟨c, hc, i, hi, hposition⟩
  · rcases hplace' with ⟨_, hposition'⟩ | ⟨c', hc', i', hi', hposition'⟩
    · exact hgrid _ _ _ _ horigin horigin' (hposition.symm.trans (heq.trans hposition'))
    · exact absurd (hposition'.symm.trans (heq.symm.trans hposition))
        (h.loose c' hc' i' id' hi' ⟨origin', horigin', hord'⟩ id origin horigin hord hout)
  · rcases hplace' with ⟨hout', hposition'⟩ | ⟨c', hc', i', hi', hposition'⟩
    · exact absurd (hposition.symm.trans (heq.trans hposition'))
        (h.loose c hc i id hi ⟨origin, horigin, hord⟩ id' origin' horigin' hord' hout')
    · have hsame := hposition.symm.trans (heq.trans hposition')
      by_cases hcc : c = c'
      · subst hcc
        rw [cell_inj hsame] at hi
        exact Option.some.inj (hi.symm.trans hi')
      · exact absurd hsame (h.clusters.forall hc hc' hcc i i' id id' hi hi'
          ⟨origin, horigin, hord⟩ ⟨origin', horigin', hord'⟩)

theorem distinct_iff_clear {groups : List (String × List String)}
    (hnodup : (groups.map Prod.snd).flatten.Nodup) {grid : Dict String (NodeModel Sub)}
    (hgrid : ∀ id id' node node', grid.get? id = some node → grid.get? id' = some node' →
      node.position = node'.position → id = id') :
    Distinct (groups.foldl packGroup grid) ↔ Clear grid (clusters groups grid) :=
  ⟨clear_of_distinct hnodup, distinct_of_clear hnodup hgrid⟩

/-! ## The layouts -/

theorem members_nodup (nodes : Dict String (NodeModel Sub)) :
    ((membersByGroup nodes).entries.map Prod.snd).flatten.Nodup := by
  refine (Buckets.perm_collect _ _ _).nodup_iff.mpr (List.pairwise_map.mpr ?_)
  refine (List.pairwise_map.mp nodes.nodup).filterMap _ fun entry entry' hne member hmember
    member' hmember' => ?_
  obtain ⟨_, -, rfl⟩ := Option.map_eq_some_iff.mp hmember
  obtain ⟨_, -, rfl⟩ := Option.map_eq_some_iff.mp hmember'
  exact hne

/-- What is asked of a layout: its layers are as they should be, and no two ordinary nodes
are at one place. -/
def Lawful (nodes : Dict String (NodeModel Sub)) (edges : Dict String EdgeModel)
    (result : Dict String (NodeModel Sub)) : Prop :=
  Layering nodes edges (layersOf nodes edges) ∧ Distinct result

/-- Three nodes one below the other, of which the outer two are grouped. -/
def sandwich : Dict String (NodeModel Unit) :=
  let node (id type : String) (groupId : Option String) : String × NodeModel Unit :=
    (id, {
      id
      type
      paradigm := .FUNCTIONAL
      params := []
      ports := []
      position := { x := 0, y := 0 }
      groupId := some groupId })
  .ofList [node "a" "data.load_csv" (some "g"), node "b" "data.load_csv" none,
    node "c" "data.load_csv" (some "g"), node "g" GROUP_NODE_TYPE none]

end EmergentFlow.Layout
