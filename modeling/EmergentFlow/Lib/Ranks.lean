import Mathlib.Algebra.Order.Group.Defs
import Mathlib.Algebra.Order.Monoid.Defs
import Mathlib.Data.List.Range

/-!
# Ranks — hits by their places

Each hit of a ranking counts by its place, and less the later it comes. Hits are worth the
most at the front, and only there (`value_lt`).
-/

namespace Ranks

variable {K : Type} [AddCommMonoid K]

/-- The worth of the `j`-th hit and those after it, at the places `ps`. -/
def value (g : Nat → Nat → K) : Nat → List Nat → K
  | _, [] => 0
  | j, p :: ps => g j p + value g (j + 1) ps

/-- The worth of `n` hits at the places from `j` on. -/
def front (g : Nat → Nat → K) (j n : Nat) : K := value g j (List.range' j n)

theorem front_succ (g : Nat → Nat → K) (j n : Nat) :
    front g j (n + 1) = g j j + front g (j + 1) n := rfl

/-- A hit is worth something, and more at its own place than at a later one. -/
structure Falling [PartialOrder K] (g : Nat → Nat → K) : Prop where
  pos : ∀ j p, 0 < g j p
  falls : ∀ j p, j < p → g j p < g j j

variable [PartialOrder K] [IsOrderedCancelAddMonoid K] {g : Nat → Nat → K}

theorem value_nonneg (h : Falling g) (j : Nat) (ps : List Nat) : 0 ≤ value g j ps := by
  induction ps generalizing j with
  | nil => exact le_refl 0
  | cons p ps ih => exact add_nonneg (h.pos j p).le (ih (j + 1))

theorem front_pos (h : Falling g) {j n : Nat} (hn : 0 < n) : 0 < front g j n := by
  obtain ⟨n, rfl⟩ := Nat.exists_eq_succ_of_ne_zero (Nat.ne_of_gt hn)
  rw [front_succ]
  exact add_pos_of_pos_of_nonneg (h.pos j j) (value_nonneg h _ _)

/-- At most `n` hits are worth less than `n` hits at the front, unless they are these. -/
theorem value_lt (h : Falling g) {j n : Nat} {ps : List Nat} (hinc : ps.Pairwise (· < ·))
    (hfrom : ∀ p ∈ ps, j ≤ p) (hn : ps.length ≤ n) (hne : ps ≠ List.range' j n) :
    value g j ps < front g j n := by
  induction ps generalizing j n with
  | nil =>
      refine front_pos h (Nat.pos_of_ne_zero ?_)
      rintro rfl
      exact hne rfl
  | cons p ps ih =>
      obtain ⟨n, rfl⟩ := Nat.exists_eq_succ_of_ne_zero (Nat.ne_of_gt (Nat.zero_lt_of_lt hn))
      rw [List.pairwise_cons] at hinc
      have hp : j ≤ p := hfrom p (List.mem_cons_self ..)
      have hlater : ∀ q ∈ ps, j + 1 ≤ q := fun q hq => Nat.lt_of_le_of_lt hp (hinc.1 q hq)
      have hrest := ih hinc.2 hlater (Nat.le_of_succ_le_succ hn)
      rw [front_succ, value]
      rcases Nat.eq_or_lt_of_le hp with rfl | hlt
      · refine add_lt_add_of_le_of_lt (le_refl _) (hrest fun hps => hne ?_)
        rw [hps]
        rfl
      · refine add_lt_add_of_lt_of_le (h.falls j p hlt) ?_
        by_cases hps : ps = List.range' (j + 1) n
        · rw [hps, front]
        · exact (hrest hps).le

theorem value_le (h : Falling g) {j n : Nat} {ps : List Nat} (hinc : ps.Pairwise (· < ·))
    (hfrom : ∀ p ∈ ps, j ≤ p) (hn : ps.length ≤ n) : value g j ps ≤ front g j n := by
  by_cases hps : ps = List.range' j n
  · rw [hps, front]
  · exact (value_lt h hinc hfrom hn hps).le

theorem value_eq_iff (h : Falling g) {j n : Nat} {ps : List Nat} (hinc : ps.Pairwise (· < ·))
    (hfrom : ∀ p ∈ ps, j ≤ p) (hn : ps.length ≤ n) :
    value g j ps = front g j n ↔ ps = List.range' j n := by
  constructor
  · intro heq
    by_contra hne
    exact (value_lt h hinc hfrom hn hne).ne heq
  · rintro rfl
    rfl

end Ranks
