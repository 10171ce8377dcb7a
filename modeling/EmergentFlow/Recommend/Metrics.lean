import Mathlib.Algebra.Field.Rat
import Mathlib.Algebra.Order.Field.Basic
import Mathlib.Algebra.Order.Ring.Rat
import Mathlib.Data.Finset.Card
import Mathlib.Data.Finset.Insert
import Mathlib.Tactic.Linarith
import Mathlib.Tactic.Positivity
import EmergentFlow.Lib.Ranks

/-!
# Recommend — Metrics

The ranking metrics (`recommend/metrics.py`). The discount of a place, `1 / log2(i + 2)` in
the source, is a parameter; numbers are exact.

Average precision and NDCG walk over the first items with the relevant ones they have seen.
Both are the worth of one list of places, that of the first occurrences (`first_hits`).
-/

namespace EmergentFlow.Recommend

variable {α K : Type} [DecidableEq α] [Field K] [LinearOrder K]

/-- `recommended[:k]` for a `k` that is not negative. -/
def top (recommended : List α) (k : Int) : List α := recommended.take k.toNat

def n_relevant (relevant : Finset α) (items : List α) : Nat := items.countP (· ∈ relevant)

def precision_at_k (recommended : List α) (relevant : Finset α) (k : Int) : K :=
  if k ≤ 0 ∨ recommended = [] then 0 else n_relevant relevant (top recommended k) / k

def recall_at_k (recommended : List α) (relevant : Finset α) (k : Int) : K :=
  if k ≤ 0 ∨ recommended = [] ∨ relevant = ∅ then 0
  else n_relevant relevant (top recommended k) / relevant.card

def hit (recommended : List α) (relevant : Finset α) (k : Int) : K :=
  if k ≤ 0 ∨ recommended = [] ∨ relevant = ∅ then 0
  else if (top recommended k).any (· ∈ relevant) then 1 else 0

/-- The loop of `_average_precision_at_k`, at place `i`. -/
def precision_loop (relevant : Finset α) (i n_hits : Nat) (seen : Finset α) (score : K) :
    List α → K
  | [] => score
  | item :: items =>
      if item ∈ relevant ∧ item ∉ seen then
        precision_loop relevant (i + 1) (n_hits + 1) (insert item seen)
          (score + (n_hits + 1 : Nat) / (i + 1 : Nat)) items
      else precision_loop relevant (i + 1) n_hits seen score items

def average_precision_at_k (recommended : List α) (relevant : Finset α) (k : Int) : K :=
  if k ≤ 0 ∨ recommended = [] ∨ relevant = ∅ then 0
  else precision_loop relevant 0 0 ∅ 0 (top recommended k) / min k.toNat relevant.card

/-- The loop of `_mrr_at_k`, at place `i`. -/
def rank_loop (relevant : Finset α) (i : Nat) : List α → K
  | [] => 0
  | item :: items => if item ∈ relevant then 1 / (i + 1 : Nat) else rank_loop relevant (i + 1) items

def mrr_at_k (recommended : List α) (relevant : Finset α) (k : Int) : K :=
  if k ≤ 0 ∨ recommended = [] ∨ relevant = ∅ then 0
  else rank_loop relevant 0 (top recommended k)

/-- The loop of `_ndcg_at_k`, at place `i`. -/
def dcg_loop (discount : Nat → K) (relevant : Finset α) (i : Nat) (seen : Finset α) (dcg : K) :
    List α → K
  | [] => dcg
  | item :: items =>
      if item ∈ relevant ∧ item ∉ seen then
        dcg_loop discount relevant (i + 1) (insert item seen) (dcg + discount i) items
      else dcg_loop discount relevant (i + 1) seen dcg items

def ndcg_at_k (discount : Nat → K) (recommended : List α) (relevant : Finset α) (k : Int) : K :=
  if k ≤ 0 ∨ recommended = [] then 0
  else
    let n_positions := min k.toNat recommended.length
    let dcg := dcg_loop discount relevant 0 ∅ 0 (top recommended k)
    let n_rel := min relevant.card n_positions
    if n_rel = 0 then 0
    else
      let idcg := ((List.range n_rel).map discount).sum
      if 0 < idcg then dcg / idcg else 0

/-! ## First occurrences -/

/-- The places, from `i` on, of the relevant items that were not seen before. -/
def first_hits (relevant : Finset α) (i : Nat) (seen : Finset α) : List α → List Nat
  | [] => []
  | item :: items =>
      if item ∈ relevant ∧ item ∉ seen then
        i :: first_hits relevant (i + 1) (insert item seen) items
      else first_hits relevant (i + 1) seen items

variable {relevant seen : Finset α} {i : Nat} {items : List α}

omit [LinearOrder K] in
theorem precision_loop_eq (n_hits : Nat) (score : K) :
    precision_loop relevant i n_hits seen score items =
      score + Ranks.value (fun j p => ((j + 1 : Nat) : K) / (p + 1 : Nat)) n_hits
        (first_hits relevant i seen items) := by
  induction items generalizing i n_hits seen score with
  | nil => exact (add_zero score).symm
  | cons item items ih =>
      rw [precision_loop, first_hits]
      split
      · rw [ih, Ranks.value, add_assoc]
      · exact ih n_hits score

omit [LinearOrder K] in
theorem dcg_loop_eq (discount : Nat → K) (dcg : K) (j : Nat) :
    dcg_loop discount relevant i seen dcg items =
      dcg + Ranks.value (fun _ p => discount p) j (first_hits relevant i seen items) := by
  induction items generalizing i seen dcg j with
  | nil => exact (add_zero dcg).symm
  | cons item items ih =>
      rw [dcg_loop, first_hits]
      split
      · rw [ih _ (j + 1), Ranks.value, add_assoc]
      · exact ih dcg j

theorem first_hits_from : ∀ p ∈ first_hits relevant i seen items, i ≤ p := by
  induction items generalizing i seen with
  | nil => exact fun p hp => nomatch hp
  | cons item items ih =>
      intro p hp
      rw [first_hits] at hp
      split at hp
      · rcases List.mem_cons.mp hp with rfl | hp
        · exact le_refl p
        · exact Nat.le_of_succ_le (ih p hp)
      · exact Nat.le_of_succ_le (ih p hp)

theorem first_hits_increasing : (first_hits relevant i seen items).Pairwise (· < ·) := by
  induction items generalizing i seen with
  | nil => exact List.Pairwise.nil
  | cons item items ih =>
      rw [first_hits]
      split
      · exact List.Pairwise.cons (fun p hp => first_hits_from p hp) ih
      · exact ih

variable (relevant seen i items) in
theorem first_hits_length : (first_hits relevant i seen items).length ≤ items.length := by
  induction items generalizing i seen with
  | nil => exact le_refl 0
  | cons item items ih =>
      rw [first_hits]
      split
      · exact Nat.succ_le_succ (ih _ _)
      · exact Nat.le_succ_of_le (ih _ _)

/-- Every hit is another relevant item. -/
theorem first_hits_card (hseen : seen ⊆ relevant) :
    (first_hits relevant i seen items).length + seen.card ≤ relevant.card := by
  induction items generalizing i seen with
  | nil => simpa [first_hits] using Finset.card_le_card hseen
  | cons item items ih =>
      rw [first_hits]
      split
      · next hhit =>
          have hcard := ih (i := i + 1) (Finset.insert_subset hhit.1 hseen)
          rw [Finset.card_insert_of_notMem hhit.2] at hcard
          rw [List.length_cons]
          omega
      · exact ih hseen

/-- No more than `n` hits are those of the first `n` places when each of them is a hit. -/
theorem first_hits_front {n : Nat} (hlength : n ≤ items.length)
    (hfew : (first_hits relevant i seen items).length ≤ n) :
    first_hits relevant i seen items = List.range' i n ↔
      (items.take n).Nodup ∧ ∀ item ∈ items.take n, item ∈ relevant ∧ item ∉ seen := by
  induction items generalizing i seen n with
  | nil =>
      obtain rfl := Nat.le_zero.mp hlength
      simp [first_hits]
  | cons item items ih =>
      cases n with
      | zero =>
          rw [List.length_eq_zero_iff.mp (Nat.le_zero.mp hfew)]
          simp
      | succ n =>
          rw [List.length_cons] at hlength
          rw [first_hits] at hfew ⊢
          rw [List.take_succ_cons, List.range'_succ]
          by_cases hhit : item ∈ relevant ∧ item ∉ seen
          · rw [if_pos hhit, List.length_cons] at hfew
            rw [if_pos hhit, List.cons_inj_right, ih (by omega) (by omega), List.nodup_cons,
              List.forall_mem_cons]
            simp only [Finset.mem_insert, not_or]
            constructor
            · intro h
              exact ⟨⟨fun hmem => (h.2 item hmem).2.1 rfl, h.1⟩, hhit,
                fun x hx => ⟨(h.2 x hx).1, (h.2 x hx).2.2⟩⟩
            · intro h
              refine ⟨h.1.2, fun x hx => ⟨(h.2.2 x hx).1, ?_, (h.2.2 x hx).2⟩⟩
              rintro rfl
              exact h.1.1 hx
          · rw [if_neg hhit]
            constructor
            · intro h
              -- what follows has later places, so the first is not among them
              have hfirst : i ∈ first_hits relevant (i + 1) seen items :=
                h ▸ List.mem_cons_self ..
              have hlater := first_hits_from i hfirst
              omega
            · intro h
              exact absurd (h.2 item (List.mem_cons_self ..)) hhit

/-! ## Repeats -/

/-- One occurrence of `x`, not its first, becomes an item that is not relevant. -/
def Replaced (relevant : Finset α) (x : α) (recommended recommended' : List α) : Prop :=
  ∃ pre post y, recommended = pre ++ x :: post ∧ recommended' = pre ++ y :: post ∧
    x ∈ pre ∧ y ∉ relevant

theorem first_hits_replace {x y : α} {pre post : List α} (hy : y ∉ relevant)
    (hx : x ∈ pre ∨ x ∈ seen ∨ x ∉ relevant) :
    first_hits relevant i seen (pre ++ x :: post) =
      first_hits relevant i seen (pre ++ y :: post) := by
  induction pre generalizing i seen with
  | nil =>
      have hx : ¬ (x ∈ relevant ∧ x ∉ seen) := fun h =>
        hx.elim (fun hmem => nomatch hmem) fun hx => hx.elim h.2 fun hx => hx h.1
      rw [List.nil_append, List.nil_append, first_hits, first_hits, if_neg hx,
        if_neg fun h => hy h.1]
  | cons item pre ih =>
      rw [List.cons_append, List.cons_append, first_hits, first_hits]
      split
      · next hhit =>
          rw [ih]
          rcases hx with hx | hx | hx
          · rcases List.mem_cons.mp hx with rfl | hx
            · exact Or.inr (Or.inl (Finset.mem_insert_self ..))
            · exact Or.inl hx
          · exact Or.inr (Or.inl (Finset.mem_insert_of_mem hx))
          · exact Or.inr (Or.inr hx)
      · next hhit =>
          rw [ih]
          rcases hx with hx | hx
          · rcases List.mem_cons.mp hx with rfl | hx
            · -- the item was passed over here, so it is no hit behind either
              refine Or.inr ?_
              rw [not_and_or, not_not] at hhit
              exact hhit.symm
            · exact Or.inl hx
          · exact Or.inr hx

omit [LinearOrder K] in
theorem rank_loop_replace {x y : α} {pre post : List α} (hy : y ∉ relevant)
    (hx : x ∈ pre ∨ x ∉ relevant) :
    (rank_loop relevant i (pre ++ x :: post) : K) = rank_loop relevant i (pre ++ y :: post) := by
  induction pre generalizing i with
  | nil =>
      have hx : x ∉ relevant := hx.resolve_left List.not_mem_nil
      rw [List.nil_append, List.nil_append, rank_loop, rank_loop, if_neg hx, if_neg hy]
  | cons item pre ih =>
      rw [List.cons_append, List.cons_append, rank_loop, rank_loop]
      by_cases hitem : item ∈ relevant
      · rw [if_pos hitem, if_pos hitem]
      · rw [if_neg hitem, if_neg hitem]
        apply ih
        rcases hx with hx | hx
        · rcases List.mem_cons.mp hx with rfl | hx
          · exact Or.inr hitem
          · exact Or.inl hx
        · exact Or.inr hx

omit [DecidableEq α] in
theorem top_replace (x y : α) (pre post : List α) (k : Int) :
    top (pre ++ x :: post) k = top (pre ++ y :: post) k ∨
      ∃ post', top (pre ++ x :: post) k = pre ++ x :: post' ∧
        top (pre ++ y :: post) k = pre ++ y :: post' := by
  rw [top, top, List.take_append, List.take_append]
  cases hm : k.toNat - pre.length with
  | zero => exact Or.inl rfl
  | succ m =>
      right
      rw [List.take_of_length_le (by omega), List.take_succ_cons, List.take_succ_cons]
      exact ⟨post.take m, rfl, rfl⟩

omit [DecidableEq α] in
/-- What depends on the first items only, and not on the repeat there, is not changed. -/
theorem Replaced.top_congr {β : Type} {x : α} {recommended recommended' : List α}
    (h : Replaced relevant x recommended recommended') (k : Int) (f : List α → β)
    (hf : ∀ pre post y, x ∈ pre → y ∉ relevant → f (pre ++ x :: post) = f (pre ++ y :: post)) :
    f (top recommended k) = f (top recommended' k) := by
  obtain ⟨pre, post, y, rfl, rfl, hx, hy⟩ := h
  rcases top_replace x y pre post k with hsame | ⟨post', hold, hnew⟩
  · rw [hsame]
  · rw [hold, hnew]
    exact hf pre post' y hx hy

omit [DecidableEq α] in
theorem Replaced.length_eq {x : α} {recommended recommended' : List α}
    (h : Replaced relevant x recommended recommended') :
    recommended'.length = recommended.length := by
  obtain ⟨pre, post, y, rfl, rfl, _⟩ := h
  rw [List.length_append, List.length_append, List.length_cons, List.length_cons]

omit [DecidableEq α] in
theorem Replaced.nil_iff {x : α} {recommended recommended' : List α}
    (h : Replaced relevant x recommended recommended') : recommended' = [] ↔ recommended = [] := by
  rw [← List.length_eq_zero_iff, ← List.length_eq_zero_iff, h.length_eq]

section

variable {x : α} {recommended recommended' : List α} {k : Int}

omit [LinearOrder K] in
theorem Replaced.hit_eq (h : Replaced relevant x recommended recommended') :
    (hit recommended' relevant k : K) = hit recommended relevant k := by
  have htop := h.top_congr k (fun items => items.any (· ∈ relevant)) (by
    intro pre post y hx hy
    rw [List.any_append, List.any_append, List.any_cons, List.any_cons]
    by_cases hrel : x ∈ relevant
    · have hpre : pre.any (· ∈ relevant) = true :=
        List.any_eq_true.mpr ⟨x, hx, decide_eq_true hrel⟩
      rw [hpre, Bool.true_or, Bool.true_or]
    · simp [hrel, hy])
  simp only [hit, h.nil_iff, htop]

omit [LinearOrder K] in
theorem Replaced.average_precision_eq (h : Replaced relevant x recommended recommended') :
    (average_precision_at_k recommended' relevant k : K) =
      average_precision_at_k recommended relevant k := by
  have htop := h.top_congr k (first_hits relevant 0 ∅) fun _ _ _ hx hy =>
    first_hits_replace hy (Or.inl hx)
  simp only [average_precision_at_k, h.nil_iff, precision_loop_eq, htop]

omit [LinearOrder K] in
theorem Replaced.mrr_eq (h : Replaced relevant x recommended recommended') :
    (mrr_at_k recommended' relevant k : K) = mrr_at_k recommended relevant k := by
  have htop := h.top_congr k (rank_loop (K := K) relevant 0) fun _ _ _ hx hy =>
    rank_loop_replace hy (Or.inl hx)
  simp only [mrr_at_k, h.nil_iff, htop]

theorem Replaced.ndcg_eq (h : Replaced relevant x recommended recommended')
    (discount : Nat → K) :
    ndcg_at_k discount recommended' relevant k = ndcg_at_k discount recommended relevant k := by
  have htop := h.top_congr k (first_hits relevant 0 ∅) fun _ _ _ hx hy =>
    first_hits_replace hy (Or.inl hx)
  simp only [ndcg_at_k, h.nil_iff, h.length_eq, dcg_loop_eq _ _ 0, htop]

/-- The repeat of an item that is not relevant, or one beyond the first `k` places. -/
theorem Replaced.n_relevant_eq (h : Replaced relevant x recommended recommended')
    (hx : x ∉ relevant ∨ top recommended' k = top recommended k) :
    n_relevant relevant (top recommended' k) = n_relevant relevant (top recommended k) := by
  rcases hx with hx | hsame
  swap
  · rw [hsame]
  refine (h.top_congr k (n_relevant relevant) fun pre post y _ hy => ?_).symm
  rw [n_relevant, n_relevant, List.countP_append, List.countP_append,
    List.countP_cons_of_neg (by simpa using hx), List.countP_cons_of_neg (by simpa using hy)]

omit [LinearOrder K] in
theorem Replaced.precision_eq (h : Replaced relevant x recommended recommended')
    (hx : x ∉ relevant ∨ top recommended' k = top recommended k) :
    (precision_at_k recommended' relevant k : K) = precision_at_k recommended relevant k := by
  simp only [precision_at_k, h.nil_iff, h.n_relevant_eq hx]

omit [LinearOrder K] in
theorem Replaced.recall_eq (h : Replaced relevant x recommended recommended')
    (hx : x ∉ relevant ∨ top recommended' k = top recommended k) :
    (recall_at_k recommended' relevant k : K) = recall_at_k recommended relevant k := by
  simp only [recall_at_k, h.nil_iff, h.n_relevant_eq hx]

end

/-! ## Bounds -/

/-- The first `n` items are relevant, and none of them is there twice. -/
def Perfect (relevant : Finset α) (n : Nat) (recommended : List α) : Prop :=
  (recommended.take n).Nodup ∧ ∀ item ∈ recommended.take n, item ∈ relevant

/-- A metric between 0 and 1. -/
def InUnit (x : K) : Prop := 0 ≤ x ∧ x ≤ 1

variable {recommended : List α} {k : Int}

variable (relevant) in
theorem hits_card (items : List α) :
    (first_hits relevant 0 ∅ items).length ≤ relevant.card := by
  have hcard : (first_hits relevant 0 ∅ items).length + (∅ : Finset α).card ≤ relevant.card :=
    first_hits_card (Finset.empty_subset relevant)
  rwa [Finset.card_empty, Nat.add_zero] at hcard

variable (recommended k) in
omit [DecidableEq α] in
theorem top_length : (top recommended k).length = min k.toNat recommended.length :=
  List.length_take

theorem perfect_iff {n : Nat} (hn : n = min k.toNat relevant.card)
    (hlength : n ≤ recommended.length) :
    first_hits relevant 0 ∅ (top recommended k) = List.range' 0 n ↔
      Perfect relevant n recommended := by
  have hfew := hits_card relevant (top recommended k)
  have hfew' := first_hits_length relevant ∅ 0 (top recommended k)
  have htop := top_length recommended k
  have htake : (top recommended k).take n = recommended.take n := by
    rw [top, List.take_take, Nat.min_eq_left (by omega)]
  rw [first_hits_front (by omega) (by omega), htake, Perfect]
  simp

section Bounds

variable [IsStrictOrderedRing K]

theorem div_unit {a b : K} (ha : 0 ≤ a) (hab : a ≤ b) : InUnit (a / b) :=
  ⟨div_nonneg ha (ha.trans hab), div_le_one_of_le₀ hab (ha.trans hab)⟩

theorem zero_unit : InUnit (0 : K) := ⟨le_refl 0, zero_le_one⟩

theorem one_unit : InUnit (1 : K) := ⟨zero_le_one, le_refl 1⟩

/-- The hits of average precision. -/
theorem precision_falling : Ranks.Falling fun j p => ((j + 1 : Nat) : K) / (p + 1 : Nat) where
  pos j p := by positivity
  falls j p hlt := by
    have hj : (0 : K) < (j + 1 : Nat) := by positivity
    have hp : ((j + 1 : Nat) : K) < (p + 1 : Nat) := by exact_mod_cast Nat.succ_lt_succ hlt
    rw [div_self hj.ne', div_lt_one (hj.trans hp)]
    exact hp

theorem precision_front (j n : Nat) :
    Ranks.front (fun j p => ((j + 1 : Nat) : K) / (p + 1 : Nat)) j n = n := by
  induction n generalizing j with
  | zero => exact Nat.cast_zero.symm
  | succ n ih =>
      have hj : ((j + 1 : Nat) : K) ≠ 0 := Nat.cast_ne_zero.mpr (Nat.succ_ne_zero j)
      rw [Ranks.front_succ, ih, div_self hj, Nat.cast_succ, add_comm]

omit [IsStrictOrderedRing K] in
theorem discount_falling {discount : Nat → K} (hpos : ∀ i, 0 < discount i)
    (hfalls : StrictAnti discount) : Ranks.Falling fun _ p => discount p where
  pos _ p := hpos p
  falls _ _ hlt := hfalls hlt

omit [LinearOrder K] [IsStrictOrderedRing K] in
theorem discount_front (discount : Nat → K) (j n : Nat) :
    Ranks.front (fun _ p => discount p) j n = ((List.range' j n).map discount).sum := by
  induction n generalizing j with
  | zero => rfl
  | succ n ih => rw [Ranks.front_succ, ih, List.range'_succ, List.map_cons, List.sum_cons]

theorem precision_unit (hk : 1 ≤ k) : InUnit (precision_at_k recommended relevant k : K) := by
  rw [precision_at_k]
  split
  · exact zero_unit
  · refine div_unit (Nat.cast_nonneg _) ?_
    have hcount : n_relevant relevant (top recommended k) ≤ (top recommended k).length :=
      List.countP_le_length
    rw [top_length] at hcount
    have hle : (n_relevant relevant (top recommended k) : Int) ≤ k := by omega
    exact_mod_cast (Int.cast_le (R := K)).mpr hle

/-- As long as no relevant item is there twice. -/
theorem recall_unit (hnodup : ((top recommended k).filter (· ∈ relevant)).Nodup) :
    InUnit (recall_at_k recommended relevant k : K) := by
  rw [recall_at_k]
  split
  · exact zero_unit
  · refine div_unit (Nat.cast_nonneg _) ?_
    rw [n_relevant, List.countP_eq_length_filter, ← List.toFinset_card_of_nodup hnodup]
    refine Nat.cast_le.mpr (Finset.card_le_card fun item hitem => ?_)
    exact of_decide_eq_true (List.mem_filter.mp (List.mem_toFinset.mp hitem)).2

theorem hit_unit : InUnit (hit recommended relevant k : K) := by
  rw [hit]
  split
  · exact zero_unit
  · split
    · exact one_unit
    · exact zero_unit

theorem rank_loop_unit (items : List α) : InUnit (rank_loop relevant i items : K) := by
  induction items generalizing i with
  | nil => exact zero_unit
  | cons item items ih =>
      rw [rank_loop]
      split
      · refine div_unit zero_le_one ?_
        exact_mod_cast Nat.le_add_left 1 i
      · exact ih

theorem mrr_unit : InUnit (mrr_at_k recommended relevant k : K) := by
  rw [mrr_at_k]
  split
  · exact zero_unit
  · exact rank_loop_unit _

variable (relevant recommended k) in
theorem first_hits_few : (first_hits relevant 0 ∅ (top recommended k)).length ≤
    min relevant.card (min k.toNat recommended.length) := by
  have hlength := first_hits_length relevant ∅ 0 (top recommended k)
  rw [top_length] at hlength
  exact Nat.le_min.mpr ⟨hits_card _ _, hlength⟩

/-! ### Average precision -/

omit [LinearOrder K] [IsStrictOrderedRing K] in
theorem score_eq : (precision_loop relevant 0 0 ∅ 0 (top recommended k) : K) =
    Ranks.value (fun j p => ((j + 1 : Nat) : K) / (p + 1 : Nat)) 0
      (first_hits relevant 0 ∅ (top recommended k)) := by
  rw [precision_loop_eq, zero_add]

theorem average_precision_unit :
    InUnit (average_precision_at_k recommended relevant k : K) := by
  rw [average_precision_at_k]
  split
  · exact zero_unit
  · have hfew := first_hits_few relevant recommended k
    rw [score_eq]
    refine div_unit (Ranks.value_nonneg precision_falling _ _) ?_
    rw [← precision_front (K := K) 0]
    exact Ranks.value_le precision_falling first_hits_increasing first_hits_from (by omega)

/-- A list with enough items has average precision 1 just when it is perfect. -/
theorem average_precision_one (hk : 1 ≤ k) (hrelevant : relevant.Nonempty)
    (hlength : min k.toNat relevant.card ≤ recommended.length) :
    average_precision_at_k recommended relevant k = (1 : K) ↔
      Perfect relevant (min k.toNat relevant.card) recommended := by
  have hfew := first_hits_few relevant recommended k
  have hcard := hrelevant.card_pos
  have hpos : 0 < min k.toNat relevant.card := by omega
  have hne : ¬ (k ≤ 0 ∨ recommended = [] ∨ relevant = ∅) := by
    rintro (hk' | rfl | rfl)
    · omega
    · rw [List.length_nil] at hlength
      omega
    · exact Finset.not_nonempty_empty hrelevant
  rw [average_precision_at_k, if_neg hne, div_eq_one_iff_eq (Nat.cast_ne_zero.mpr hpos.ne'),
    score_eq, ← precision_front (K := K) 0,
    Ranks.value_eq_iff precision_falling first_hits_increasing first_hits_from (by omega),
    perfect_iff rfl hlength]

/-! ### NDCG -/

variable {discount : Nat → K}

theorem ndcg_unit (hpos : ∀ i, 0 < discount i) (hfalls : StrictAnti discount) :
    InUnit (ndcg_at_k discount recommended relevant k) := by
  rw [ndcg_at_k]
  split
  · exact zero_unit
  · dsimp only
    split
    · exact zero_unit
    · split
      · rw [dcg_loop_eq _ _ 0, zero_add]
        refine div_unit (Ranks.value_nonneg (discount_falling hpos hfalls) _ _) ?_
        rw [List.range_eq_range', ← discount_front]
        exact Ranks.value_le (discount_falling hpos hfalls) first_hits_increasing first_hits_from
          (first_hits_few _ _ _)
      · exact zero_unit

/-- A list with enough items has NDCG 1 just when it is perfect. -/
theorem ndcg_one (hpos : ∀ i, 0 < discount i) (hfalls : StrictAnti discount) (hk : 1 ≤ k)
    (hrelevant : relevant.Nonempty)
    (hlength : min k.toNat relevant.card ≤ recommended.length) :
    ndcg_at_k discount recommended relevant k = 1 ↔
      Perfect relevant (min k.toNat relevant.card) recommended := by
  have hcard := hrelevant.card_pos
  have hne : ¬ (k ≤ 0 ∨ recommended = []) := by
    rintro (hk' | rfl)
    · omega
    · rw [List.length_nil] at hlength
      omega
  have hn : min relevant.card (min k.toNat recommended.length) = min k.toNat relevant.card := by
    omega
  have hn' : min k.toNat relevant.card ≠ 0 := by omega
  have hideal := Ranks.front_pos (discount_falling hpos hfalls) (j := 0) (Nat.pos_of_ne_zero hn')
  have hfew := first_hits_few relevant recommended k
  rw [hn] at hfew
  rw [ndcg_at_k, if_neg hne]
  dsimp only
  rw [hn, if_neg hn', List.range_eq_range', ← discount_front, if_pos hideal,
    div_eq_one_iff_eq hideal.ne', dcg_loop_eq _ _ 0, zero_add,
    Ranks.value_eq_iff (discount_falling hpos hfalls) first_hits_increasing first_hits_from hfew,
    perfect_iff rfl hlength]

end Bounds

/-! ## What the metrics promise -/

/-- The bounds at one list. Recall is bounded where no relevant item is met twice. -/
structure Bounded (discount : Nat → K) (recommended : List α) (relevant : Finset α) (k : Int) :
    Prop where
  precision : InUnit (precision_at_k recommended relevant k : K)
  recalled : ((top recommended k).filter (· ∈ relevant)).Nodup →
    InUnit (recall_at_k recommended relevant k : K)
  hit : InUnit (hit recommended relevant k : K)
  average_precision : InUnit (average_precision_at_k recommended relevant k : K)
  mrr : InUnit (mrr_at_k recommended relevant k : K)
  ndcg : InUnit (ndcg_at_k discount recommended relevant k)

/-- What is the same with a repeat of `x` and without it: all metrics when `x` is not relevant or
the repeat is beyond the first `k` places, those that keep track of what they have seen in any
case. -/
structure SameScores (discount : Nat → K) (x : α) (recommended recommended' : List α)
    (relevant : Finset α) (k : Int) : Prop where
  precision : x ∉ relevant ∨ top recommended' k = top recommended k →
    (precision_at_k recommended' relevant k : K) = precision_at_k recommended relevant k
  recalled : x ∉ relevant ∨ top recommended' k = top recommended k →
    (recall_at_k recommended' relevant k : K) = recall_at_k recommended relevant k
  hit : (hit recommended' relevant k : K) = hit recommended relevant k
  average_precision : (average_precision_at_k recommended' relevant k : K) =
    average_precision_at_k recommended relevant k
  mrr : (mrr_at_k recommended' relevant k : K) = mrr_at_k recommended relevant k
  ndcg : ndcg_at_k discount recommended' relevant k = ndcg_at_k discount recommended relevant k

theorem metrics_proper [IsStrictOrderedRing K] {discount : Nat → K} (hpos : ∀ i, 0 < discount i)
    (hfalls : StrictAnti discount) (recommended : List α) (relevant : Finset α) {k : Int}
    (hk : 1 ≤ k) :
    Bounded discount recommended relevant k ∧
      (∀ x recommended', Replaced relevant x recommended recommended' →
        SameScores discount x recommended recommended' relevant k) ∧
      (relevant.Nonempty → min k.toNat relevant.card ≤ recommended.length →
        (average_precision_at_k recommended relevant k = (1 : K) ↔
          Perfect relevant (min k.toNat relevant.card) recommended) ∧
        (ndcg_at_k discount recommended relevant k = 1 ↔
          Perfect relevant (min k.toNat relevant.card) recommended)) := by
  refine ⟨?_, ?_, ?_⟩
  · exact ⟨precision_unit hk, recall_unit, hit_unit, average_precision_unit, mrr_unit,
      ndcg_unit hpos hfalls⟩
  · intro x recommended' h
    exact ⟨h.precision_eq, h.recall_eq, h.hit_eq, h.average_precision_eq, h.mrr_eq,
      h.ndcg_eq discount⟩
  · intro hrelevant hlength
    exact ⟨average_precision_one hk hrelevant hlength,
      ndcg_one hpos hfalls hk hrelevant hlength⟩

theorem metrics_proper_reciprocal :
    Bounded (fun i => (1 : ℚ) / (i + 1 : Nat)) [3, 5, 3] {3, 4} 2 ∧
      (∀ x recommended', Replaced {3, 4} x [3, 5, 3] recommended' →
        SameScores (fun i => (1 : ℚ) / (i + 1 : Nat)) x [3, 5, 3] recommended' {3, 4} 2) ∧
      (({3, 4} : Finset Nat).Nonempty → min 2 ({3, 4} : Finset Nat).card ≤ 3 →
        (average_precision_at_k [3, 5, 3] {3, 4} 2 = (1 : ℚ) ↔
          Perfect {3, 4} (min 2 ({3, 4} : Finset Nat).card) [3, 5, 3]) ∧
        (ndcg_at_k (fun i => (1 : ℚ) / (i + 1 : Nat)) [3, 5, 3] {3, 4} 2 = 1 ↔
          Perfect {3, 4} (min 2 ({3, 4} : Finset Nat).card) [3, 5, 3])) :=
  metrics_proper (fun i => by positivity)
    (fun i j hlt => one_div_lt_one_div_of_lt (by positivity)
      (by exact_mod_cast Nat.succ_lt_succ hlt))
    _ _ (by decide)

/-- A relevant item met twice is recalled twice. And where no item is relevant, average
precision is 0 though none of the first items is missing. -/
theorem metrics_not_proper : ¬ InUnit (recall_at_k [5, 5] {5} 2 : ℚ) ∧
    ¬ (average_precision_at_k [5] ∅ 1 = (1 : ℚ) ↔
      Perfect ∅ (min 1 (∅ : Finset Nat).card) [5]) := by
  constructor
  · have hrecall : (recall_at_k [5, 5] {5} 2 : ℚ) = 2 := by
      have hcount : n_relevant {5} (top [5, 5] 2) = 2 := by decide
      rw [recall_at_k, if_neg (by decide), hcount]
      norm_num
    rw [hrecall]
    exact fun h => absurd h.2 (by norm_num)
  · have hzero : (average_precision_at_k ([5] : List Nat) ∅ 1 : ℚ) = 0 := rfl
    rw [hzero]
    simp [Perfect]

end EmergentFlow.Recommend
