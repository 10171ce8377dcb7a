import EmergentFlow.Lib.Buckets
import EmergentFlow.Lib.Decimal
import EmergentFlow.Lib.Probe
import EmergentFlow.Ui.CanvasModel
import Mathlib.Data.Rat.Floor

/-!
# Ui — Separate

How the canvas keeps nodes from being stacked on each other
(`separateOverlappingNodes` of `ui/src/canvas/layout.ts`). Nodes whose rounded positions
agree collide; all of them but the first are moved along the diagonal, each to
the first place that neither a node of the input nor an earlier move has taken.

The induction is over the moves: `Moved` says what a state owes to the nodes
moved so far. That the taken places hold the keys of the whole input is what
keeps a move off the nodes that come later.
-/

namespace EmergentFlow.Layout

open Canvas

variable {Sub : Type}

def CASCADE_STEP : Rat := 48

/-- `Math.round`. -/
def mathRound (q : Rat) : Int := (q + 1 / 2).floor

def rounded (position : Position) : Int × Int := (mathRound position.x, mathRound position.y)

def posKey (position : Position) : String :=
  (mathRound position.x).repr ++ ":" ++ (mathRound position.y).repr

/-- Some steps down the diagonal. -/
def cascaded (position : Position) (step : Nat) : Position where
  x := position.x + CASCADE_STEP * step
  y := position.y + CASCADE_STEP * step

/-! ## Keys -/

theorem posKey_inj {p q : Position} : posKey p = posKey q ↔ rounded p = rounded q := by
  have hcolon : ∀ a : Int, ':' ∉ a.repr.toList := fun a h => by
    rcases Decimal.mem_int_repr h with hdigit | hsign
    · cases hdigit
    · cases hsign
  have hlist : ∀ p : Position, (posKey p).toList =
      (mathRound p.x).repr.toList ++ ':' :: (mathRound p.y).repr.toList := fun p => by
    simp [posKey]
  rw [← String.toList_inj, hlist, hlist, List.append_cons_inj_of_notMem (hcolon _) (hcolon _),
    String.toList_inj, String.toList_inj, Decimal.int_repr_inj, Decimal.int_repr_inj]
  simp [rounded]

theorem mathRound_add (q : Rat) (n : Int) : mathRound (q + n) = mathRound q + n := by
  have hcomm : q + n + 1 / 2 = q + 1 / 2 + n := by ring
  rw [mathRound, hcomm]
  exact Int.floor_add_intCast (q + 1 / 2) n

theorem rounded_cascaded (p : Position) (step : Nat) :
    rounded (cascaded p step) =
      (mathRound p.x + 48 * step, mathRound p.y + 48 * step) := by
  have hstep : CASCADE_STEP * step = ((48 * step : Int) : Rat) := by
    rw [CASCADE_STEP]
    push_cast
    ring
  rw [rounded, cascaded, hstep, mathRound_add, mathRound_add]

theorem posKey_cascaded_injective (p : Position) :
    Function.Injective fun step => posKey (cascaded p step) := by
  intro a b h
  have hround := posKey_inj.mp h
  rw [rounded_cascaded, rounded_cascaded, Prod.mk.injEq] at hround
  omega

/-! ## The passes -/

def groupsByPosition (nodes : Dict String (NodeModel Sub)) : Dict String (List String) :=
  Buckets.collect (fun node : NodeModel Sub => posKey node.position) (·.id) nodes.values

def takenKeys (nodes : Dict String (NodeModel Sub)) : Finset String :=
  (nodes.values.map fun node => posKey node.position).toFinset

structure Cascade (Sub : Type) where
  taken : Finset String
  result : Dict String (NodeModel Sub)

/-- One member of a group and its place in it; the first member stays. The
nodes are keyed by their ids, so every member is found. -/
def cascadeMember (nodes : Dict String (NodeModel Sub)) (st : Cascade Sub)
    (member : String × Nat) : Cascade Sub :=
  -- the first node at a place stays there
  if member.2 = 0 then st
  else
    match nodes.get? member.1 with
    | none => st
    | some existing =>
        let step :=
          Probe.firstFree (posKey_cascaded_injective existing.position) st.taken member.2
        let position := cascaded existing.position step
        { taken := insert (posKey position) st.taken
          result := st.result.set member.1 { existing with position } }

def cascadeGroup (nodes : Dict String (NodeModel Sub)) (st : Cascade Sub) (ids : List String) :
    Cascade Sub :=
  if ids.length < 2 then st else ids.zipIdx.foldl (cascadeMember nodes) st

def separateOverlappingNodes (nodes : Dict String (NodeModel Sub)) : Dict String (NodeModel Sub) :=
  ((groupsByPosition nodes).values.foldl (cascadeGroup nodes)
    { taken := takenKeys nodes, result := nodes }).result

/-! ## The invariant -/

/-- The state after some nodes have been moved: the others are where they
were, and the moved ones are where no node was and none has been moved to. -/
structure Moved (nodes : Dict String (NodeModel Sub)) (done : Set String) (st : Cascade Sub) :
    Prop where
  keys : st.result.keys = nodes.keys
  carried : ∀ id node, nodes.get? id = some node →
    ∃ position, st.result.get? id = some { node with position }
  stays : ∀ id, id ∉ done → st.result.get? id = nodes.get? id
  taken : takenKeys nodes ⊆ st.taken
  fresh : ∀ id ∈ done, ∀ node, st.result.get? id = some node →
    posKey node.position ∈ st.taken ∧ posKey node.position ∉ takenKeys nodes
  apart : ∀ id ∈ done, ∀ id' ∈ done, ∀ node node', st.result.get? id = some node →
    st.result.get? id' = some node' → posKey node.position = posKey node'.position → id = id'

variable {nodes : Dict String (NodeModel Sub)} {done : Set String} {st : Cascade Sub}

theorem Moved.start : Moved nodes ∅ { taken := takenKeys nodes, result := nodes } where
  keys := rfl
  carried _ node h := ⟨node.position, h⟩
  stays _ _ := rfl
  taken _ h := h
  fresh _ h := h.elim
  apart _ h := h.elim

/-- An id of no node counts as moved. -/
theorem Moved.absent (h : Moved nodes done st) {id : String} (hid : id ∉ done)
    (hget : nodes.get? id = none) : Moved nodes (insert id done) st := by
  have hnone : ∀ node, st.result.get? id ≠ some node := by
    intro node hnode
    rw [h.stays id hid, hget] at hnode
    cases hnode
  exact {
    keys := h.keys
    carried := h.carried
    stays := fun id' hid' => h.stays id' fun hdone => hid' (.inr hdone)
    taken := h.taken
    fresh := by
      rintro id' (rfl | hdone) node hnode
      · exact absurd hnode (hnone node)
      · exact h.fresh id' hdone node hnode
    apart := by
      rintro a (rfl | ha) b (rfl | hb) na nb hna hnb heq
      · rfl
      · exact absurd hna (hnone na)
      · exact absurd hnb (hnone nb)
      · exact h.apart a ha b hb na nb hna hnb heq }

/-- The moved nodes are on taken places. -/
theorem Moved.posKey_ne (h : Moved nodes done st) {id : String} (hid : id ∈ done)
    {node : NodeModel Sub} (hnode : st.result.get? id = some node) {position : Position}
    (hfree : posKey position ∉ st.taken) : posKey node.position ≠ posKey position := by
  intro heq
  rw [← heq] at hfree
  exact hfree (h.fresh id hid node hnode).1

/-- A node put on a place that is not taken is one more moved node. -/
theorem Moved.move (h : Moved nodes done st) {id : String} (hid : id ∉ done)
    {existing : NodeModel Sub} (hget : nodes.get? id = some existing) {position : Position}
    (hfree : posKey position ∉ st.taken) :
    Moved nodes (insert id done)
      { taken := insert (posKey position) st.taken
        result := st.result.set id { existing with position } } := by
  have hself := Dict.get?_set_self st.result id { existing with position }
  have hother : ∀ {id'}, id' ∈ done →
      (st.result.set id { existing with position }).get? id' = st.result.get? id' :=
    fun hdone => Dict.get?_set_ne _ _ fun heq => hid (heq ▸ hdone)
  have hmem : id ∈ st.result.keys := by
    rw [h.keys]
    exact (Dict.mem_keys_iff _).mpr ⟨existing, hget⟩
  exact {
    keys := (Dict.keys_set_of_mem _ _ hmem).trans h.keys
    carried := by
      intro id' node hnode
      by_cases heq : id = id'
      · subst heq
        rw [hget] at hnode
        cases hnode
        exact ⟨position, hself⟩
      · rw [Dict.get?_set_ne _ _ heq]
        exact h.carried id' node hnode
    stays := fun id' hid' => by
      rw [Dict.get?_set_ne _ _ fun heq => hid' (.inl heq.symm)]
      exact h.stays id' fun hdone => hid' (.inr hdone)
    taken := h.taken.trans (Finset.subset_insert _ _)
    fresh := by
      rintro id' (rfl | hdone) node hnode
      · rw [hself] at hnode
        cases hnode
        exact ⟨Finset.mem_insert_self _ _, fun hkey => hfree (h.taken hkey)⟩
      · rw [hother hdone] at hnode
        obtain ⟨htaken, hfresh⟩ := h.fresh id' hdone node hnode
        exact ⟨Finset.mem_insert_of_mem htaken, hfresh⟩
    apart := by
      rintro a (rfl | ha) b (rfl | hb) na nb hna hnb heq
      · rfl
      · rw [hself] at hna
        rw [hother hb] at hnb
        cases hna
        exact absurd heq.symm (h.posKey_ne hb hnb hfree)
      · rw [hother ha] at hna
        rw [hself] at hnb
        cases hnb
        exact absurd heq (h.posKey_ne ha hna hfree)
      · rw [hother ha] at hna
        rw [hother hb] at hnb
        exact h.apart a ha b hb na nb hna hnb heq }

/-- A move adds its node to the moved ones. -/
theorem Moved.step (h : Moved nodes done st) {id : String} {index : Nat} (hid : id ∉ done)
    (hindex : index ≠ 0) : Moved nodes (insert id done) (cascadeMember nodes st (id, index)) := by
  rw [cascadeMember, if_neg hindex]
  cases hget : nodes.get? id with
  | none => exact h.absent hid hget
  | some existing =>
      have hinj := posKey_cascaded_injective existing.position
      exact h.move hid hget (Probe.firstFree_notMem hinj st.taken index)

/-- The members of a group after its first are moved. -/
theorem Moved.members (h : Moved nodes done st) {ids : List String} {index : Nat}
    (hindex : index ≠ 0) (hnodup : ids.Nodup) (hids : ∀ id ∈ ids, id ∉ done) :
    Moved nodes (done ∪ {id | id ∈ ids}) ((ids.zipIdx index).foldl (cascadeMember nodes) st) := by
  induction ids generalizing done st index with
  | nil => simpa using h
  | cons id ids ih =>
      obtain ⟨hfresh, hnodup⟩ := List.nodup_cons.mp hnodup
      have hrest := ih (h.step (hids id List.mem_cons_self) hindex) (Nat.succ_ne_zero index) hnodup
        fun other hother => by
          rintro (rfl | hdone)
          · exact hfresh hother
          · exact hids other (List.mem_cons_of_mem _ hother) hdone
      have hset : insert id done ∪ {other | other ∈ ids} = done ∪ {other | other ∈ id :: ids} := by
        ext other
        simp only [Set.mem_union, Set.mem_insert_iff, Set.mem_ofPred_eq, List.mem_cons]
        tauto
      rw [hset] at hrest
      exact hrest

theorem Moved.group (h : Moved nodes done st) {ids : List String} (hnodup : ids.Nodup)
    (hids : ∀ id ∈ ids, id ∉ done) :
    Moved nodes (done ∪ {id | id ∈ ids.tail}) (cascadeGroup nodes st ids) := by
  rw [cascadeGroup]
  cases ids with
  | nil => simpa using h
  | cons first ids =>
      split
      · rename_i hlength
        rw [List.length_cons] at hlength
        obtain rfl : ids = [] := List.eq_nil_of_length_eq_zero (by omega)
        simpa using h
      · rw [List.zipIdx_cons, List.foldl_cons]
        have hfirst : cascadeMember nodes st (first, 0) = st := if_pos rfl
        rw [hfirst]
        exact h.members (Nat.succ_ne_zero 0) (List.nodup_cons.mp hnodup).2
          fun id hid => hids id (List.mem_cons_of_mem _ hid)

/-- All groups in turn. -/
theorem Moved.groups (h : Moved nodes done st) {groups : List (List String)}
    (hnodup : groups.flatten.Nodup) (hids : ∀ id ∈ groups.flatten, id ∉ done) :
    Moved nodes (done ∪ {id | ∃ ids ∈ groups, id ∈ ids.tail})
      (groups.foldl (cascadeGroup nodes) st) := by
  induction groups generalizing done st with
  | nil => simpa using h
  | cons ids groups ih =>
      rw [List.flatten_cons, List.nodup_append] at hnodup
      obtain ⟨hfirst, hnodup, hapart⟩ := hnodup
      have hrest := ih (h.group hfirst fun id hid => hids id (List.mem_append_left _ hid)) hnodup
        fun id hid => by
          rintro (hdone | htail)
          · exact hids id (List.mem_append_right _ hid) hdone
          · exact hapart id (List.mem_of_mem_tail htail) id hid rfl
      have hset : done ∪ {id | id ∈ ids.tail} ∪ {id | ∃ ids ∈ groups, id ∈ ids.tail} =
          done ∪ {id | ∃ ids' ∈ ids :: groups, id ∈ ids'.tail} := by
        ext id
        simp [or_assoc]
      rw [hset] at hrest
      exact hrest

/-! ## The law -/

/-- The nodes are listed under their ids. -/
def Keyed (nodes : Dict String (NodeModel Sub)) : Prop :=
  ∀ id node, nodes.get? id = some node → node.id = id

/-- No node before this one is at its rounded position: it is in no
collision, or the first of one. -/
def First (nodes : Dict String (NodeModel Sub)) (node : NodeModel Sub) : Prop :=
  ∀ pre post, nodes.values = pre ++ node :: post →
    ∀ other ∈ pre, rounded other.position ≠ rounded node.position

/-- No two nodes are at one rounded position. -/
def Apart (nodes : Dict String (NodeModel Sub)) : Prop :=
  ∀ id id' node node', nodes.get? id = some node → nodes.get? id' = some node' →
    rounded node.position = rounded node'.position → id = id'

/-- A node that is moved: not the first of its group. -/
def Follows (nodes : Dict String (NodeModel Sub)) (id : String) : Prop :=
  ∃ ids ∈ (groupsByPosition nodes).values, id ∈ ids.tail

theorem Keyed.nodup (hkeyed : Keyed nodes) : (nodes.values.map (·.id)).Nodup := by
  have hkeys : nodes.values.map (·.id) = nodes.keys := by
    rw [Dict.values, Dict.keys, List.map_map]
    apply List.map_congr_left
    intro e he
    exact hkeyed e.1 e.2 ((Dict.mem_entries_iff nodes).mp he)
  rw [hkeys]
  exact nodes.nodup_keys

theorem separate_moved (hkeyed : Keyed nodes) :
    ∃ st : Cascade Sub, st.result = separateOverlappingNodes nodes ∧
      Moved nodes {id | Follows nodes id} st := by
  have hflat : (groupsByPosition nodes).values.flatten.Nodup :=
    (Buckets.perm_collect _ _ _).nodup_iff.mpr hkeyed.nodup
  have hstart : Moved nodes ∅ { taken := takenKeys nodes, result := nodes } := Moved.start
  have hmoved := hstart.groups hflat fun _ _ h => h
  rw [Set.empty_union] at hmoved
  exact ⟨_, rfl, hmoved⟩

/-- What follows the first of the items with a property has one before it. -/
theorem mem_tail_filter {α β : Type} {p : α → Bool} {f : α → β} {l : List α} {b : β}
    (h : b ∈ ((l.filter p).map f).tail) :
    ∃ pre a post, l = pre ++ a :: post ∧ f a = b ∧ p a = true ∧ ∃ other ∈ pre, p other = true := by
  induction l with
  | nil => cases h
  | cons first l ih =>
      by_cases hfirst : p first = true
      · rw [List.filter_cons_of_pos hfirst, List.map_cons, List.tail_cons] at h
        obtain ⟨a, ha, rfl⟩ := List.mem_map.mp h
        obtain ⟨hmem, hp⟩ := List.mem_filter.mp ha
        obtain ⟨pre, post, rfl⟩ := List.append_of_mem hmem
        exact ⟨first :: pre, a, post, rfl, rfl, hp, first, List.mem_cons_self, hfirst⟩
      · rw [List.filter_cons_of_neg hfirst] at h
        obtain ⟨pre, a, post, rfl, hb, hp, other, hother, hq⟩ := ih h
        exact ⟨first :: pre, a, post, rfl, hb, hp, other, List.mem_cons_of_mem _ hother, hq⟩

theorem not_follows_of_first (hkeyed : Keyed nodes) {id : String} {node : NodeModel Sub}
    (hget : nodes.get? id = some node) (hfirst : First nodes node) : ¬ Follows nodes id := by
  rintro ⟨ids, hids, htail⟩
  obtain ⟨key, hkey⟩ := (Dict.mem_values_iff _).mp hids
  obtain ⟨-, rfl⟩ := Buckets.get?_collect.mp hkey
  obtain ⟨pre, found, post, hvalues, hid, hp, other, hother, hq⟩ := mem_tail_filter htail
  obtain ⟨k, hk⟩ := (Dict.mem_values_iff nodes).mp
    (hvalues ▸ List.mem_append_right pre List.mem_cons_self : found ∈ nodes.values)
  obtain rfl : k = id := (hkeyed k found hk).symm.trans hid
  rw [hget] at hk
  cases hk
  apply hfirst pre post hvalues other hother
  rw [← posKey_inj, of_decide_eq_true hp, of_decide_eq_true hq]

/-- The first node of a group is the only one of it that is not moved. -/
theorem eq_of_not_follows (hkeyed : Keyed nodes) {id id' : String} {node node' : NodeModel Sub}
    (hget : nodes.get? id = some node) (hget' : nodes.get? id' = some node')
    (hid : ¬ Follows nodes id) (hid' : ¬ Follows nodes id')
    (hkey : posKey node.position = posKey node'.position) : id = id' := by
  have hmem : ∀ {i n}, nodes.get? i = some n → posKey n.position = posKey node.position →
      i ∈ (nodes.values.filter fun n => posKey n.position = posKey node.position).map (·.id) := by
    intro i n hn hp
    exact List.mem_map.mpr ⟨n, List.mem_filter.mpr
      ⟨(Dict.mem_values_iff nodes).mpr ⟨i, hn⟩, decide_eq_true hp⟩, hkeyed i n hn⟩
  have hfirst := hmem hget rfl
  have hsecond := hmem hget' hkey.symm
  cases hids : (nodes.values.filter fun n => posKey n.position = posKey node.position).map (·.id) with
  | nil => simp [hids] at hfirst
  | cons first rest =>
      have hbucket : first :: rest ∈ (groupsByPosition nodes).values :=
        (Dict.mem_values_iff _).mpr ⟨posKey node.position,
          Buckets.get?_collect.mpr ⟨List.cons_ne_nil _ _, hids.symm⟩⟩
      rw [hids, List.mem_cons] at hfirst hsecond
      rw [hfirst.resolve_right fun h => hid ⟨_, hbucket, h⟩,
        hsecond.resolve_right fun h => hid' ⟨_, hbucket, h⟩]

theorem mem_takenKeys {id : String} {node : NodeModel Sub} (hget : nodes.get? id = some node) :
    posKey node.position ∈ takenKeys nodes :=
  List.mem_toFinset.mpr (List.mem_map_of_mem ((Dict.mem_values_iff nodes).mpr ⟨id, hget⟩))

theorem separate_apart (hkeyed : Keyed nodes) : Apart (separateOverlappingNodes nodes) := by
  obtain ⟨st, hresult, hmoved⟩ := separate_moved hkeyed
  rw [← hresult]
  intro id id' node node' hnode hnode' hround
  have hkey := posKey_inj.mpr hround
  by_cases hid : Follows nodes id <;> by_cases hid' : Follows nodes id'
  · exact hmoved.apart id hid id' hid' node node' hnode hnode' hkey
  · -- a moved node is off the places of the input, where the other one still is
    rw [hmoved.stays id' hid'] at hnode'
    exact absurd (hkey ▸ mem_takenKeys hnode') (hmoved.fresh id hid node hnode).2
  · rw [hmoved.stays id hid] at hnode
    exact absurd (hkey ▸ mem_takenKeys hnode) (hmoved.fresh id' hid' node' hnode').2
  · rw [hmoved.stays id hid] at hnode
    rw [hmoved.stays id' hid'] at hnode'
    exact eq_of_not_follows hkeyed hnode hnode' hid hid' hkey

theorem separate_first (hkeyed : Keyed nodes) {id : String} {node : NodeModel Sub}
    (hget : nodes.get? id = some node) (hfirst : First nodes node) :
    (separateOverlappingNodes nodes).get? id = some node := by
  obtain ⟨st, hresult, hmoved⟩ := separate_moved hkeyed
  rw [← hresult, hmoved.stays id (not_follows_of_first hkeyed hget hfirst)]
  exact hget

theorem separate_carried (hkeyed : Keyed nodes) {id : String} {node : NodeModel Sub}
    (hget : nodes.get? id = some node) :
    ∃ position, (separateOverlappingNodes nodes).get? id = some { node with position } := by
  obtain ⟨st, hresult, hmoved⟩ := separate_moved hkeyed
  rw [← hresult]
  exact hmoved.carried id node hget

theorem keys_separate (hkeyed : Keyed nodes) : (separateOverlappingNodes nodes).keys = nodes.keys := by
  obtain ⟨st, hresult, hmoved⟩ := separate_moved hkeyed
  rw [← hresult, hmoved.keys]

theorem Keyed.separate (hkeyed : Keyed nodes) : Keyed (separateOverlappingNodes nodes) := by
  intro id moved hmoved
  have hmem : id ∈ nodes.keys := by
    rw [← keys_separate hkeyed]
    exact (Dict.mem_keys_iff _).mpr ⟨moved, hmoved⟩
  obtain ⟨node, hnode⟩ := (Dict.mem_keys_iff nodes).mp hmem
  obtain ⟨position, hposition⟩ := separate_carried hkeyed hnode
  rw [hposition] at hmoved
  cases hmoved
  exact hkeyed id node hnode

/-- Where no two nodes collide, every node is the first at its position. -/
theorem Apart.first (hkeyed : Keyed nodes) (hapart : Apart nodes) {node : NodeModel Sub} :
    First nodes node := by
  intro pre post hvalues other hother hround
  have hnodup := hkeyed.nodup
  rw [hvalues, List.map_append, List.map_cons] at hnodup
  obtain ⟨id, hnode⟩ := (Dict.mem_values_iff nodes).mp
    (hvalues ▸ List.mem_append_right pre List.mem_cons_self : node ∈ nodes.values)
  obtain ⟨id', hother'⟩ := (Dict.mem_values_iff nodes).mp
    (hvalues ▸ List.mem_append_left _ hother : other ∈ nodes.values)
  have heq := hapart id' id other node hother' hnode hround
  have hid : other.id = node.id := by
    rw [hkeyed id node hnode, hkeyed id' other hother', heq]
  exact (List.nodup_append.mp hnodup).2.2 other.id (List.mem_map_of_mem hother) node.id
    List.mem_cons_self hid

theorem separate_of_apart (hkeyed : Keyed nodes) (hapart : Apart nodes) :
    separateOverlappingNodes nodes = nodes := by
  apply Dict.ext_get? (keys_separate hkeyed)
  intro id
  cases hget : nodes.get? id with
  | some node => exact separate_first hkeyed hget (hapart.first hkeyed)
  | none =>
      rw [Dict.get?_eq_none_iff] at hget ⊢
      rwa [keys_separate hkeyed]

/-- No two nodes are left at one rounded position, the first node at each
position and the nodes in no collision stay exactly, and nothing but
positions changes: a layout without collisions is left alone, and so is
what the separation gives. -/
theorem separateOverlappingNodes_law (nodes : Dict String (NodeModel Sub)) (hkeyed : Keyed nodes) :
    Apart (separateOverlappingNodes nodes) ∧
    (∀ id node, nodes.get? id = some node → First nodes node →
      (separateOverlappingNodes nodes).get? id = some node) ∧
    (separateOverlappingNodes nodes).keys = nodes.keys ∧
    (∀ id node, nodes.get? id = some node →
      ∃ position, (separateOverlappingNodes nodes).get? id = some { node with position }) ∧
    (Apart nodes → separateOverlappingNodes nodes = nodes) ∧
    separateOverlappingNodes (separateOverlappingNodes nodes) = separateOverlappingNodes nodes :=
  ⟨separate_apart hkeyed, fun _ _ => separate_first hkeyed, keys_separate hkeyed,
    fun _ _ => separate_carried hkeyed, separate_of_apart hkeyed,
    separate_of_apart hkeyed.separate (separate_apart hkeyed)⟩

def node_at (id : String) (x y : Rat) : NodeModel Unit where
  id := id
  type := "load"
  paradigm := .FUNCTIONAL
  params := []
  ports := []
  position := { x, y }

/-- Two nodes at the origin, and one where the first step would put the second. -/
def stacked : Dict String (NodeModel Unit) :=
  ⟨[("a", node_at "a" 0 0), ("b", node_at "b" 0 0), ("c", node_at "c" 48 48)], by decide⟩

theorem separateOverlappingNodes_law_stacked :
    Apart (separateOverlappingNodes stacked) ∧
      (separateOverlappingNodes stacked).get? "a" = some (node_at "a" 0 0) := by
  have hkeyed : Keyed stacked := by
    intro id node hget
    have hmem := (Dict.mem_entries_iff stacked).mpr hget
    simp only [stacked, List.mem_cons, List.not_mem_nil, or_false, Prod.mk.injEq] at hmem
    rcases hmem with ⟨rfl, rfl⟩ | ⟨rfl, rfl⟩ | ⟨rfl, rfl⟩ <;> rfl
  have hfirst : First stacked (node_at "a" 0 0) := by
    rintro pre post hvalues other hother
    cases pre with
    | nil => cases hother
    | cons head pre =>
        have hids : ["b", "c"] = (pre ++ node_at "a" 0 0 :: post).map (·.id) :=
          (List.cons.inj (congrArg (List.map fun node : NodeModel Unit => node.id) hvalues)).2
        have hmem : "a" ∈ (pre ++ node_at "a" 0 0 :: post).map (·.id) :=
          List.mem_map_of_mem (List.mem_append_right pre List.mem_cons_self)
        rw [← hids] at hmem
        exact absurd hmem (by decide)
  have hlaw := separateOverlappingNodes_law stacked hkeyed
  exact ⟨hlaw.1, hlaw.2.1 "a" _ rfl hfirst⟩

end EmergentFlow.Layout
