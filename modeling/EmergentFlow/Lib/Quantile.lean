import Mathlib.Algebra.Order.Field.Basic
import Mathlib.Data.List.Sort
import Mathlib.Tactic.Linarith

/-!
# Quantile — between the neighbours of a sorted list

A quantile walks along the sorted values, a share of the way from the first to the last, and
between two neighbours it goes straight. So it rises with the share (`quantile_mono`), and
there is one as soon as there is a value.
-/

namespace Quantile

variable {K : Type*} [Field K] [LinearOrder K]

/-- The value `t` steps behind the first of a list; behind the last it stays there. -/
def walk (a : K) : List K → K → K
  | [], _ => a
  | b :: l, t => if t ≤ 1 then a + t * (b - a) else walk b l (t - 1)

/-- The quantile of a share, if there is a value. -/
def quantile (values : List K) (q : K) : Option K :=
  match values.insertionSort (· ≤ ·) with
  | [] => none
  | a :: l => some (walk a l (q * l.length))

/-- The value in the middle, or halfway between the two there. -/
def median (values : List K) : Option K := quantile values (1 / 2)

section Exists

variable {values : List K} {q : K}

theorem quantile_eq_none : quantile values q = none ↔ values = [] := by
  rw [quantile]
  cases hsorted : values.insertionSort (· ≤ ·) with
  | nil =>
      have hlength := List.length_insertionSort (· ≤ ·) values
      rw [hsorted] at hlength
      exact iff_of_true rfl (List.length_eq_zero_iff.mp hlength.symm)
  | cons a l =>
      refine iff_of_false (Option.some_ne_none _) ?_
      rintro rfl
      cases hsorted

theorem exists_quantile (h : values ≠ []) (q : K) : ∃ v, quantile values q = some v :=
  Option.ne_none_iff_exists'.mp (quantile_eq_none.not.mpr h)

end Exists

variable [IsStrictOrderedRing K]

theorem walk_zero (a : K) (l : List K) : walk a l 0 = a := by
  cases l with
  | nil => rfl
  | cons b l => rw [walk, if_pos zero_le_one, zero_mul, add_zero]

/-- Along a sorted list a longer walk ends no lower. -/
theorem walk_mono {a : K} {l : List K} (h : (a :: l).Pairwise (· ≤ ·)) {t t' : K} (ht : 0 ≤ t)
    (hle : t ≤ t') : walk a l t ≤ walk a l t' := by
  induction l generalizing a t t' with
  | nil => exact le_refl a
  | cons b l ih =>
      obtain ⟨hhead, hrest⟩ := List.pairwise_cons.mp h
      have hstep : 0 ≤ b - a := sub_nonneg.mpr (hhead b List.mem_cons_self)
      rw [walk, walk]
      by_cases hnear : t ≤ 1
      · rw [if_pos hnear]
        by_cases hnear' : t' ≤ 1
        · rw [if_pos hnear']
          exact add_le_add_right (mul_le_mul_of_nonneg_right hle hstep) a
        · rw [if_neg hnear']
          -- the shorter walk ends before the second value, the longer one behind it
          have hsecond : b ≤ walk b l (t' - 1) := by
            have hrise := ih hrest (le_refl 0) (sub_nonneg.mpr (not_le.mp hnear').le)
            rwa [walk_zero] at hrise
          have hshort : t * (b - a) ≤ 1 * (b - a) := mul_le_mul_of_nonneg_right hnear hstep
          linarith
      · have hfar : ¬ t' ≤ 1 := fun hnear' => hnear (hle.trans hnear')
        rw [if_neg hnear, if_neg hfar]
        exact ih hrest (sub_nonneg.mpr (not_le.mp hnear).le) (sub_le_sub_right hle 1)

theorem le_walk {a : K} {l : List K} (h : (a :: l).Pairwise (· ≤ ·)) {t : K} (ht : 0 ≤ t) :
    a ≤ walk a l t := by
  have hrise := walk_mono h (le_refl 0) ht
  rwa [walk_zero] at hrise

variable {values : List K} {q q' v v' : K}

omit [IsStrictOrderedRing K] in
/-- A quantile is a walk along the sorted values. -/
theorem quantile_cases (h : quantile values q = some v) :
    ∃ a l, (a :: l).Perm values ∧ (a :: l).Pairwise (· ≤ ·) ∧ walk a l (q * l.length) = v ∧
      values.insertionSort (· ≤ ·) = a :: l := by
  rw [quantile] at h
  have hperm := List.perm_insertionSort (· ≤ ·) values
  have hsorted := List.pairwise_insertionSort (· ≤ ·) values
  cases hvalues : values.insertionSort (· ≤ ·) with
  | nil =>
      rw [hvalues] at h
      cases h
  | cons a l =>
      rw [hvalues] at h hperm hsorted
      exact ⟨a, l, hperm, hsorted, Option.some.inj h, rfl⟩

theorem quantile_mono (hq : 0 ≤ q) (hle : q ≤ q') (h : quantile values q = some v)
    (h' : quantile values q' = some v') : v ≤ v' := by
  obtain ⟨a, l, -, hsorted, rfl, hvalues⟩ := quantile_cases h
  obtain ⟨a', l', -, -, rfl, hvalues'⟩ := quantile_cases h'
  obtain ⟨rfl, rfl⟩ := List.cons.inj (hvalues.symm.trans hvalues')
  have hlength : (0 : K) ≤ l.length := Nat.cast_nonneg _
  exact walk_mono hsorted (mul_nonneg hq hlength) (mul_le_mul_of_nonneg_right hle hlength)

/-- A quantile of values that are not negative is not negative. -/
theorem quantile_nonneg (hvalues : ∀ x ∈ values, 0 ≤ x) (hq : 0 ≤ q)
    (h : quantile values q = some v) : 0 ≤ v := by
  obtain ⟨a, l, hperm, hsorted, rfl, -⟩ := quantile_cases h
  have hfirst := hvalues a (hperm.mem_iff.mp List.mem_cons_self)
  exact hfirst.trans (le_walk hsorted (mul_nonneg hq (Nat.cast_nonneg _)))

end Quantile
