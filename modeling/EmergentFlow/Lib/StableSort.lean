import Mathlib.Data.List.Sort
import Mathlib.Data.List.Nodup

/-!
# StableSort — what a stable sort keeps in order

Two elements that a stable sort leaves in one order either belong in that
order or compare equal and stood so before. With it, whether an element is
among the last of a sorted list is a question about the unsorted one.
-/

namespace StableSort

open List

variable {α : Type*} {l : List α} {a b : α}

/-! ## Pairs in order -/

/-- Two elements of a list stand in one order or the other. -/
theorem pair_or_swap (ha : a ∈ l) (hb : b ∈ l) (hne : a ≠ b) : [a, b] <+ l ∨ [b, a] <+ l := by
  obtain ⟨pre, post, rfl⟩ := List.append_of_mem ha
  rcases List.mem_append.mp hb with hb | hb
  · right
    exact (singleton_sublist.mpr hb).append (singleton_sublist.mpr (mem_cons_self ..))
  · left
    rcases List.mem_cons.mp hb with rfl | hb
    · exact absurd rfl hne
    · exact ((singleton_sublist.mpr hb).cons_cons a).trans (sublist_append_right ..)

theorem Nodup.not_swap (hl : l.Nodup) (h : [a, b] <+ l) : ¬ [b, a] <+ l := by
  induction l with
  | nil => cases h
  | cons c l ih =>
      rw [nodup_cons] at hl
      intro hswap
      cases h with
      | cons _ h =>
          cases hswap with
          | cons _ hswap => exact ih hl.2 h hswap
          | cons_cons => exact hl.1 (h.subset (mem_cons_of_mem _ (mem_cons_self ..)))
      | cons_cons _ h =>
          cases hswap with
          | cons _ hswap => exact hl.1 (hswap.subset (mem_cons_of_mem _ (mem_cons_self ..)))
          | cons_cons => exact hl.1 (h.subset (mem_cons_self ..))

/-! ## Sorting -/

/-- What a stable sort leaves in an order belongs in it, or is equal and
stood so before. -/
theorem pair_of_mergeSort {le : α → α → Bool}
    (htrans : ∀ a b c, le a b = true → le b c = true → le a c = true)
    (htotal : ∀ a b, (le a b || le b a) = true) (hl : l.Nodup)
    (h : [a, b] <+ l.mergeSort le) : le a b = true ∧ (le b a = true → [a, b] <+ l) := by
  have hsorted := List.pairwise_mergeSort htrans htotal l
  refine ⟨pairwise_iff_forall_sublist.mp hsorted h, fun hba => ?_⟩
  have hperm := List.mergeSort_perm l le
  have ha : a ∈ l := hperm.mem_iff.mp (h.subset (mem_cons_self ..))
  have hb : b ∈ l := hperm.mem_iff.mp (h.subset (mem_cons_of_mem _ (mem_cons_self ..)))
  have hnodup := hperm.nodup_iff.mpr hl
  have hne : a ≠ b := by
    rintro rfl
    exact Nodup.not_swap hnodup h h
  rcases pair_or_swap ha hb hne with hab | hswap
  · exact hab
  · exact absurd (pair_sublist_mergeSort htrans htotal hba hswap) (Nodup.not_swap hnodup h)

/-- Sorting by a key. -/
theorem pairwise_mergeSort_key {κ : Type*} [LinearOrder κ] (key : α → κ) (l : List α) :
    (l.mergeSort fun a b => key a ≤ key b).Pairwise (key · ≤ key ·) := by
  have htrans : ∀ a b c, decide (key a ≤ key b) = true → decide (key b ≤ key c) = true →
      decide (key a ≤ key c) = true := by
    intro a b c hab hbc
    exact decide_eq_true ((of_decide_eq_true hab).trans (of_decide_eq_true hbc))
  have htotal : ∀ a b, (decide (key a ≤ key b) || decide (key b ≤ key a)) = true := by
    intro a b
    simpa using le_total (key a) (key b)
  exact (List.pairwise_mergeSort htrans htotal l).imp fun h => of_decide_eq_true h

/-- Sorting by a key that tells the elements apart does not depend on their order. -/
theorem mergeSort_key_eq {κ : Type*} [LinearOrder κ] {key : α → κ} {l' : List α}
    (hperm : l'.Perm l) (hinj : ∀ a ∈ l, ∀ b ∈ l, key a = key b → a = b) :
    l'.mergeSort (fun a b => key a ≤ key b) = l.mergeSort fun a b => key a ≤ key b := by
  have hsorted := List.mergeSort_perm l fun a b => key a ≤ key b
  have hsorted' := (List.mergeSort_perm l' fun a b => key a ≤ key b).trans hperm
  refine List.Perm.eq_of_pairwise ?_ (pairwise_mergeSort_key key l')
    (pairwise_mergeSort_key key l) (hsorted'.trans hsorted.symm)
  intro a b ha hb hab hba
  exact hinj a (hsorted'.mem_iff.mp ha) b (hsorted.mem_iff.mp hb) (hab.antisymm hba)

/-! ## The last elements -/

/-- An element with fewer than `k` behind it is among the last `k`. -/
theorem notMem_take_of_few {p : α → Bool} {k : Nat} (hafter : ∀ b, [a, b] <+ l → p b = true)
    (hfew : l.countP p < k) : a ∉ l.take (l.length - k) := by
  intro ha
  have hall : ∀ b ∈ l.drop (l.length - k), p b = true := by
    intro b hb
    apply hafter
    have hpair := (singleton_sublist.mpr ha).append (singleton_sublist.mpr hb)
    rwa [take_append_drop] at hpair
  have hcount : (l.drop (l.length - k)).countP p = (l.drop (l.length - k)).length :=
    countP_eq_length.mpr hall
  have hle : (l.drop (l.length - k)).countP p ≤ l.countP p :=
    (drop_sublist (l.length - k) l).countP_le
  have hpos : 0 < l.length - k := by
    by_contra hzero
    rw [Nat.eq_zero_of_not_pos hzero, take_zero] at ha
    cases ha
  rw [hcount, length_drop] at hle
  omega

end StableSort
