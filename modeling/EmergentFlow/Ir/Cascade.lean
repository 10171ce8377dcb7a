import Mathlib.Data.List.Perm.Subperm
import Mathlib.Tactic.Linarith
import EmergentFlow.Ir.Mutation

/-!
# Ir — Cascade

Where the nodes of a batch land (`_next_cascade_position` in
`emergentflow/ir/mutation.py`): the search for a free point on the
diagonal always ends, and a batch that is added again keeps its positions
exactly when `LandsHome` holds of them.
-/

namespace EmergentFlow

variable {Sub : Type}

/-! ## The cascade -/

theorem le_max_or_zero {xs : List Rat} {x : Rat} (h : x ∈ xs) : x ≤ max_or_zero xs := by
  have hfold : ∀ (l : List Rat) (b : Rat), b ≤ l.foldl max b ∧ ∀ y ∈ l, y ≤ l.foldl max b := by
    intro l
    induction l with
    | nil => intro b; exact ⟨le_refl b, by simp⟩
    | cons a l ih =>
        intro b
        obtain ⟨h1, h2⟩ := ih (max b a)
        refine ⟨le_trans (le_max_left b a) h1, ?_⟩
        intro y hy
        rcases List.mem_cons.mp hy with rfl | hy
        · exact le_trans (le_max_right b y) h1
        · exact h2 y hy
  cases xs with
  | nil => simp at h
  | cons a l =>
      rcases List.mem_cons.mp h with rfl | h
      · exact (hfold l x).1
      · exact (hfold l a).2 x h

theorem max_or_zero_mem {xs : List Rat} (h : xs ≠ []) : max_or_zero xs ∈ xs := by
  have hfold : ∀ (l : List Rat) (b : Rat), l.foldl max b = b ∨ l.foldl max b ∈ l := by
    intro l
    induction l with
    | nil => intro b; exact .inl rfl
    | cons a l ih =>
        intro b
        rcases ih (max b a) with h1 | h1
        · rcases max_choice b a with h2 | h2
          · left; rw [List.foldl_cons, h1, h2]
          · right; rw [List.foldl_cons, h1, h2]; exact List.mem_cons_self
        · right; exact List.mem_cons_of_mem _ h1
  cases xs with
  | nil => exact absurd rfl h
  | cons a l =>
      rcases hfold l a with h1 | h1
      · rw [show max_or_zero (a :: l) = a from h1]; exact List.mem_cons_self
      · exact List.mem_cons_of_mem _ h1

/-- The maximum only depends on which values occur. -/
theorem max_or_zero_congr {xs ys : List Rat} (h : ∀ x, x ∈ xs ↔ x ∈ ys) :
    max_or_zero xs = max_or_zero ys := by
  by_cases hx : xs = []
  · have hy : ys = [] := by
      rw [List.eq_nil_iff_forall_not_mem]
      intro y hy
      rw [← h, hx] at hy
      simp at hy
    rw [hx, hy]
  · have hy : ys ≠ [] := by
      rintro rfl
      exact absurd ((h _).mp (max_or_zero_mem hx)) (by simp)
    exact le_antisymm (le_max_or_zero ((h _).mp (max_or_zero_mem hx)))
      (le_max_or_zero ((h _).mpr (max_or_zero_mem hy)))

theorem cascade_point_congr {ps qs : List Position} (h : ∀ p, p ∈ ps ↔ p ∈ qs) (k : Nat) :
    cascade_point ps k = cascade_point qs k := by
  have hmap : ∀ (f : Position → Rat), max_or_zero (ps.map f) = max_or_zero (qs.map f) := by
    intro f
    apply max_or_zero_congr
    intro x
    simp only [List.mem_map, h]
  simp only [cascade_point, hmap]

theorem cascade_point_inj {ps : List Position} {j k : Nat}
    (h : cascade_point ps j = cascade_point ps k) : j = k := by
  have hx := congrArg Position.x h
  simp only [cascade_point, CASCADE_STEP] at hx
  have hcast : (j : Rat) = k := by linarith
  exact_mod_cast hcast

/-- A cascaded point lies past every existing one. -/
theorem lt_cascade_point {ps : List Position} {p : Position} (h : p ∈ ps) (k : Nat) :
    p.x < (cascade_point ps k).x := by
  have hle := le_max_or_zero (List.mem_map_of_mem (f := (·.x)) h)
  have hk : (0 : Rat) ≤ k := Nat.cast_nonneg k
  simp only [cascade_point, CASCADE_STEP]
  linarith

theorem cascade_point_notMem (ps : List Position) (k : Nat) : cascade_point ps k ∉ ps :=
  fun h => lt_irrefl _ (lt_cascade_point h k)

/-- What the loop returns: the first index, from the start, whose point is
not taken, and that point. -/
structure FirstFree (existing taken : List Position) (start : Nat) (r : Position × Nat) :
    Prop where
  point : r.1 = cascade_point existing r.2
  free : r.1 ∉ taken
  start_le : start ≤ r.2
  skipped : ∀ j, start ≤ j → j < r.2 → cascade_point existing j ∈ taken

theorem cascade_loop_cases (existing taken : List Position) (fuel index : Nat) :
    FirstFree existing taken index (cascade_loop existing taken fuel index) ∨
      ∀ j, index ≤ j → j ≤ index + fuel → cascade_point existing j ∈ taken := by
  induction fuel generalizing index with
  | zero =>
      by_cases h : cascade_point existing index ∈ taken
      · right
        intro j h1 h2
        rwa [show j = index by omega]
      · exact .inl ⟨rfl, h, le_refl _, fun j h1 h2 => absurd h2 (by simp only [cascade_loop]; omega)⟩
  | succ fuel ih =>
      by_cases h : cascade_point existing index ∈ taken
      · rw [cascade_loop, if_pos h]
        rcases ih (index + 1) with hf | hall
        · refine .inl ⟨hf.point, hf.free, by have := hf.start_le; omega, ?_⟩
          intro j h1 h2
          rcases Nat.eq_or_lt_of_le h1 with rfl | h1
          · exact h
          · exact hf.skipped j h1 h2
        · right
          intro j h1 h2
          rcases Nat.eq_or_lt_of_le h1 with rfl | h1
          · exact h
          · exact hall j h1 (by omega)
      · rw [cascade_loop, if_neg h]
        exact .inl ⟨rfl, h, le_refl _, fun j h1 h2 => absurd h2 (by simp only; omega)⟩

/-- The loop always finds a free point: it has one more candidate than
there are taken points, and the candidates are distinct. -/
theorem cascade_loop_free (existing taken : List Position) (index : Nat) :
    FirstFree existing taken index (next_cascade_position existing index taken) := by
  rcases cascade_loop_cases existing taken taken.length index with h | hall
  · exact h
  · exfalso
    let points := (List.range (taken.length + 1)).map fun i => cascade_point existing (index + i)
    have hnodup : points.Nodup := by
      apply List.Nodup.map _ List.nodup_range
      intro i j hij
      have := cascade_point_inj hij
      omega
    have hsub : points ⊆ taken := by
      intro p hp
      obtain ⟨i, hi, rfl⟩ := List.mem_map.mp hp
      rw [List.mem_range] at hi
      exact hall _ (by omega) (by omega)
    have hlen := (List.subperm_of_subset hnodup hsub).length_le
    simp only [points, List.length_map, List.length_range] at hlen
    omega

/-! ## Placing the added nodes -/

/-- The added nodes as the loop stores them. -/
def place_nodes (existing : List Position) :
    List (Node Sub) → Nat → List Position → List (Node Sub)
  | [], _, _ => []
  | node :: rest, index, taken =>
      let placed := place_node existing taken index node
      placed.1 :: place_nodes existing rest placed.2 (placed.1.position :: taken)

theorem place_node_of_ne (existing taken : List Position) (index : Nat) {node : Node Sub}
    (h : node.position ≠ {}) : place_node existing taken index node = (node, index) := by
  simp only [place_node, if_neg h]

theorem place_node_of_eq {existing taken : List Position} {index : Nat} {node : Node Sub}
    (h : node.position = {}) :
    place_node existing taken index node =
      ({ node with position := (next_cascade_position existing index taken).1 },
        (next_cascade_position existing index taken).2 + 1) := by
  simp only [place_node, if_pos h]

theorem place_node_id (existing taken : List Position) (index : Nat) (node : Node Sub) :
    (place_node existing taken index node).1.id = node.id := by
  unfold place_node
  split <;> rfl

theorem place_nodes_ids (existing taken : List Position) (l : List (Node Sub)) (index : Nat) :
    (place_nodes existing l index taken).map (·.id) = l.map (·.id) := by
  induction l generalizing index taken with
  | nil => rfl
  | cons node rest ih =>
      simp only [place_nodes, List.map_cons, place_node_id, ih]

/-- Nodes stored where they came from are stored unchanged. -/
theorem place_nodes_eq_of_positions {f : String → Option Position}
    {existing taken : List Position} {l : List (Node Sub)} {index : Nat}
    (hplaced : ∀ n ∈ place_nodes existing l index taken, f n.id = some n.position)
    (hl : ∀ n ∈ l, f n.id = some n.position) : place_nodes existing l index taken = l := by
  induction l generalizing index taken with
  | nil => rfl
  | cons node rest ih =>
      have hhead := hplaced _ List.mem_cons_self
      rw [place_node_id, hl node List.mem_cons_self, Option.some.injEq] at hhead
      have hnode : (place_node existing taken index node).1 = node := by
        by_cases hn : node.position = {}
        · rw [place_node_of_eq hn] at hhead ⊢
          simp only at hhead
          simp only [← hhead]
        · rw [place_node_of_ne _ _ _ hn]
      simp only [place_nodes, hnode, List.cons_eq_cons, true_and]
      apply ih
      · intro n hn
        apply hplaced
        simp only [place_nodes, hnode]
        exact List.mem_cons_of_mem _ hn
      · intro n hn
        exact hl n (List.mem_cons_of_mem _ hn)

theorem place_nodes_of_no_default {existing taken : List Position} {l : List (Node Sub)}
    {index : Nat} (h : ({} : Position) ∉ l.map (·.position)) :
    place_nodes existing l index taken = l := by
  induction l generalizing index taken with
  | nil => rfl
  | cons node rest ih =>
      simp only [List.map_cons, List.mem_cons, not_or] at h
      simp only [place_nodes, place_node_of_ne existing taken index (Ne.symm h.1), ih h.2]

/-- A node added at the default position is stored at a cascaded point. -/
theorem cascaded_of_default (existing taken : List Position) {l : List (Node Sub)}
    (index : Nat) (h : ({} : Position) ∈ l.map (·.position)) :
    ∃ r, cascade_point existing r ∈ (place_nodes existing l index taken).map (·.position) := by
  induction l generalizing taken index with
  | nil => simp at h
  | cons node rest ih =>
      by_cases hn : node.position = {}
      · refine ⟨(next_cascade_position existing index taken).2, ?_⟩
        have hfree := cascade_loop_free existing taken index
        simp only [place_nodes, place_node_of_eq hn, List.map_cons, hfree.point]
        exact List.mem_cons_self
      · have hrest : ({} : Position) ∈ rest.map (·.position) := by
          rcases List.mem_cons.mp h with h | h
          · exact absurd h.symm hn
          · exact h
        obtain ⟨r, hr⟩ := ih ((place_node existing taken index node).1.position :: taken)
          (place_node existing taken index node).2 hrest
        exact ⟨r, List.mem_cons_of_mem _ hr⟩

/-- Once the cascade has passed the default point it never returns there,
so a batch that stays where it is has no default position left. -/
theorem no_default_of_passed {existing taken : List Position} {l : List (Node Sub)}
    {index r : Nat} (hr : r < index) (hp : cascade_point existing r = {})
    (h : place_nodes existing l index taken = l) :
    ({} : Position) ∉ l.map (·.position) := by
  induction l generalizing index taken with
  | nil => simp
  | cons node rest ih =>
      obtain ⟨hhead, htail⟩ := List.cons_eq_cons.mp h
      by_cases hn : node.position = {}
      · exfalso
        have hfree := cascade_loop_free existing taken index
        rw [place_node_of_eq hn] at hhead
        have hpos := congrArg Node.position hhead
        simp only [hn] at hpos
        have heq : (next_cascade_position existing index taken).2 = r :=
          cascade_point_inj (by rw [← hfree.point, hpos, hp])
        have := hfree.start_le
        omega
      · rw [place_node_of_ne _ _ _ hn] at htail
        simp only [List.map_cons, List.mem_cons, not_or]
        exact ⟨Ne.symm hn, ih hr htail⟩

/-- Up to the first node at the default position nothing moves; that node
stays when the cascade hands the default point back, and then no later one
may sit there too. -/
theorem place_nodes_eq_iff {existing taken : List Position} {pre post : List (Node Sub)}
    {node : Node Sub} {index : Nat} (hpre : ({} : Position) ∉ pre.map (·.position))
    (hn : node.position = {}) :
    place_nodes existing (pre ++ node :: post) index taken = pre ++ node :: post ↔
      (next_cascade_position existing index
          ((pre.map (·.position)).reverse ++ taken)).1 = {} ∧
        ({} : Position) ∉ post.map (·.position) := by
  induction pre generalizing taken with
  | nil =>
      simp only [List.nil_append, List.map_nil, List.reverse_nil]
      have hfree := cascade_loop_free existing taken index
      simp only [place_nodes, place_node_of_eq hn, List.cons_eq_cons]
      constructor
      · rintro ⟨hhead, htail⟩
        have hpos : (next_cascade_position existing index taken).1 = {} := by
          have := congrArg Node.position hhead
          simpa only [hn] using this
        exact ⟨hpos, no_default_of_passed (Nat.lt_succ_self _)
          (by rw [← hfree.point, hpos]) htail⟩
      · rintro ⟨hpos, hpost⟩
        refine ⟨?_, place_nodes_of_no_default hpost⟩
        rw [hpos, ← hn]
  | cons a pre ih =>
      simp only [List.map_cons, List.mem_cons, not_or] at hpre
      simp only [List.cons_append, place_nodes, place_node_of_ne _ _ _ (Ne.symm hpre.1),
        List.cons_eq_cons, true_and, ih hpre.2, List.map_cons, List.reverse_cons,
        List.append_assoc, List.nil_append]

/-- The nodes re-added at `ps`, in that order, all stay put: none sits at
the default position, or one does, and the cascade past the positions
`left` reaches it through points that are re-added before it. -/
def LandsHome (left ps : List Position) : Prop :=
  ({} : Position) ∉ ps ∨
    (ps.count {} = 1 ∧ ∃ k, cascade_point left k = {} ∧
      ∀ j < k, cascade_point left j ∈ ps.takeWhile (· ≠ {}))

theorem next_cascade_position_eq_default {existing taken pre : List Position}
    (htaken : ∀ p, p ∈ taken ↔ p ∈ existing) (hpre : ({} : Position) ∉ pre) :
    (next_cascade_position existing 0 (pre.reverse ++ taken)).1 = {} ↔
      ∃ k, cascade_point existing k = {} ∧ ∀ j < k, cascade_point existing j ∈ pre := by
  have hfree := cascade_loop_free existing (pre.reverse ++ taken) 0
  have hnot : ∀ j, cascade_point existing j ∉ taken := by
    intro j hj
    exact cascade_point_notMem existing j ((htaken _).mp hj)
  constructor
  · intro h
    refine ⟨_, by rw [← hfree.point, h], ?_⟩
    intro j hj
    rcases List.mem_append.mp (hfree.skipped j (Nat.zero_le j) hj) with hm | hm
    · exact List.mem_reverse.mp hm
    · exact absurd hm (hnot j)
  · rintro ⟨k, hk, hskip⟩
    have hr : (next_cascade_position existing 0 (pre.reverse ++ taken)).2 = k := by
      rcases Nat.lt_trichotomy
        (next_cascade_position existing 0 (pre.reverse ++ taken)).2 k with hlt | heq | hgt
      · exact absurd (List.mem_append_left _ (List.mem_reverse.mpr (hskip _ hlt)))
          (hfree.point ▸ hfree.free)
      · exact heq
      · rcases List.mem_append.mp (hfree.skipped k (Nat.zero_le k) hgt) with hm | hm
        · rw [hk, List.mem_reverse] at hm
          exact absurd hm hpre
        · exact absurd hm (hnot k)
    rw [hfree.point, hr, hk]

/-- The re-added nodes keep their positions exactly when they land home. -/
theorem place_nodes_eq_iff_landsHome {existing taken : List Position}
    (htaken : ∀ p, p ∈ taken ↔ p ∈ existing) (l : List (Node Sub)) :
    place_nodes existing l 0 taken = l ↔ LandsHome existing (l.map (·.position)) := by
  by_cases h : ({} : Position) ∈ l.map (·.position)
  · obtain ⟨ps, qs, hsplit, hps⟩ := List.eq_append_cons_of_mem h
    obtain ⟨pre, rest, rfl, rfl, hrest⟩ := List.map_eq_append_iff.mp hsplit
    obtain ⟨node, post, rfl, hn, rfl⟩ := List.map_eq_cons_iff.mp hrest
    rw [place_nodes_eq_iff hps hn, next_cascade_position_eq_default htaken hps]
    have hcount : (pre.map (·.position)).count {} = 0 := List.count_eq_zero.mpr hps
    have htake : ((pre ++ node :: post).map (·.position)).takeWhile (· ≠ {})
        = pre.map (·.position) := by
      rw [List.map_append, List.map_cons, List.takeWhile_append_of_pos, hn]
      · simp
      · intro p hp
        have hne : p ≠ {} := by
          rintro rfl
          exact hps hp
        simpa using hne
    simp only [LandsHome, h, not_true_eq_false, false_or, htake]
    rw [List.map_append, List.map_cons, List.count_append, hcount, hn, List.count_cons_self,
      Nat.zero_add, Nat.succ_inj, List.count_eq_zero, and_comm]
  · rw [place_nodes_of_no_default h]
    exact ⟨fun _ => .inl h, fun _ => rfl⟩

end EmergentFlow
