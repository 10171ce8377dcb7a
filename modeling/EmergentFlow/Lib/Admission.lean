import Mathlib.Data.List.Basic
import Mathlib.Algebra.GroupWithZero.Nat

/-!
# Admission — items let in one after the other

Items come in turn and are let in as long as what was let in before, the item's own cost and
an allowance for it stay within a cap. What is refused costs nothing, so a later item may
be let in again. Either all are let in (`admits_all_or_refuses`) or there is a first that is
refused, and before that one the count is the sum of the costs.
-/

universe u

namespace Admission

variable {α : Type u} (cap : Nat) (cost allowance : α → Nat)

/-- There is room for an item. -/
def Room (used : Nat) (a : α) : Prop := used + cost a + allowance a ≤ cap

instance (used : Nat) (a : α) : Decidable (Room cap cost allowance used a) :=
  inferInstanceAs (Decidable (_ ≤ _))

/-- The items with what becomes of them. -/
def enter : Nat → List α → List (α × Bool)
  | _, [] => []
  | used, a :: l =>
      if Room cap cost allowance used a then (a, true) :: enter (used + cost a) l
      else (a, false) :: enter used l

/-- The count behind the items. -/
def count : Nat → List α → Nat
  | used, [] => used
  | used, a :: l =>
      if Room cap cost allowance used a then count (used + cost a) l else count used l

/-- What the items come to, with a price for each that is refused. -/
def paid (price : Nat) (l : List (α × Bool)) : Nat :=
  (l.map fun e => if e.2 then cost e.1 else price).sum

/-- All of the items are let in. -/
def All (used : Nat) (l : List α) : Prop :=
  enter cap cost allowance used l = l.map fun a => (a, true)

theorem enter_append (used : Nat) (l l' : List α) :
    enter cap cost allowance used (l ++ l') =
      enter cap cost allowance used l ++
        enter cap cost allowance (count cap cost allowance used l) l' := by
  induction l generalizing used with
  | nil => rfl
  | cons a l ih =>
      simp only [List.cons_append, enter, count]
      split <;> rw [ih, List.cons_append]

theorem map_fst_enter (used : Nat) (l : List α) :
    (enter cap cost allowance used l).map Prod.fst = l := by
  induction l generalizing used with
  | nil => rfl
  | cons a l ih =>
      unfold enter
      split <;> rw [List.map_cons, ih]

theorem paid_append (price : Nat) (l l' : List (α × Bool)) :
    paid cost price (l ++ l') = paid cost price l + paid cost price l' := by
  simp [paid]

theorem le_paid {least price : Nat} (hprice : least ≤ price) {l : List (α × Bool)}
    (hcost : ∀ e ∈ l, least ≤ cost e.1) : least * l.length ≤ paid cost price l := by
  induction l with
  | nil => exact Nat.le_refl _
  | cons e l ih =>
      rw [List.forall_mem_cons] at hcost
      have he : least ≤ if e.2 then cost e.1 else price := by
        split
        · exact hcost.1
        · exact hprice
      have hl := ih hcost.2
      simp only [paid, List.map_cons, List.sum_cons, List.length_cons, Nat.mul_succ] at hl ⊢
      omega

variable {cap cost allowance} in
theorem fst_mem_of_mem_enter {used : Nat} {l : List α} {e : α × Bool}
    (h : e ∈ enter cap cost allowance used l) : e.1 ∈ l := by
  have hmem := List.mem_map_of_mem (f := Prod.fst) h
  rwa [map_fst_enter] at hmem

theorem length_enter (used : Nat) (l : List α) :
    (enter cap cost allowance used l).length = l.length := by
  rw [← List.length_map Prod.fst, map_fst_enter]

variable {cap cost allowance}

theorem all_cons {used : Nat} {a : α} {l : List α} :
    All cap cost allowance used (a :: l) ↔
      Room cap cost allowance used a ∧ All cap cost allowance (used + cost a) l := by
  unfold All
  rw [enter, List.map_cons]
  split
  · rename_i hroom
    simp [hroom]
  · rename_i hfull
    simp [hfull]

theorem all_append {used : Nat} {l l' : List α} :
    All cap cost allowance used (l ++ l') ↔
      All cap cost allowance used l ∧ All cap cost allowance (used + (l.map cost).sum) l' := by
  induction l generalizing used with
  | nil => exact ⟨fun h => ⟨rfl, h⟩, fun h => h.2⟩
  | cons a l ih =>
      rw [List.cons_append, all_cons, all_cons, ih, List.map_cons, List.sum_cons, and_assoc,
        Nat.add_assoc]

theorem All.count {used : Nat} {l : List α} (h : All cap cost allowance used l) :
    count cap cost allowance used l = used + (l.map cost).sum := by
  induction l generalizing used with
  | nil => rfl
  | cons a l ih =>
      obtain ⟨hroom, hrest⟩ := all_cons.mp h
      rw [Admission.count, if_pos hroom, ih hrest, List.map_cons, List.sum_cons]
      omega

theorem All.paid {used : Nat} {l : List α} (h : All cap cost allowance used l) (price : Nat) :
    paid cost price (enter cap cost allowance used l) = (l.map cost).sum := by
  rw [h, Admission.paid, List.map_map]
  rfl

/-- The count is covered by what is paid. -/
theorem count_le_paid (used price : Nat) (l : List α) :
    Admission.count cap cost allowance used l ≤
      used + Admission.paid cost price (enter cap cost allowance used l) := by
  induction l generalizing used with
  | nil => exact Nat.le_refl _
  | cons a l ih =>
      simp only [Admission.count, enter]
      split
      · have := ih (used + cost a)
        simp only [Admission.paid, List.map_cons, List.sum_cons, if_true] at this ⊢
        omega
      · have := ih used
        simp only [Admission.paid, List.map_cons, List.sum_cons] at this ⊢
        omega

/-- A refused item is paid besides the count. -/
theorem all_or_count_le (used price : Nat) (l : List α) :
    All cap cost allowance used l ∨
      Admission.count cap cost allowance used l + price ≤
        used + Admission.paid cost price (enter cap cost allowance used l) := by
  induction l generalizing used with
  | nil => exact .inl rfl
  | cons a l ih =>
      simp only [Admission.count, enter, all_cons]
      split
      · rename_i hroom
        rcases ih (used + cost a) with hall | hcount
        · exact .inl ⟨hroom, hall⟩
        · simp only [Admission.paid, List.map_cons, List.sum_cons, if_true] at hcount ⊢
          exact .inr (by omega)
      · have := @count_le_paid _ cap cost allowance used price l
        simp only [Admission.paid, List.map_cons, List.sum_cons] at this ⊢
        exact .inr (by simp only [Bool.false_eq_true, if_false]; omega)

/-- Where not all are let in, one is the first that is refused. -/
theorem admits_all_or_refuses (used : Nat) (l : List α) :
    All cap cost allowance used l ∨
      ∃ before a after, l = before ++ a :: after ∧ All cap cost allowance used before ∧
        ¬ Room cap cost allowance (used + (before.map cost).sum) a := by
  induction l generalizing used with
  | nil => exact .inl rfl
  | cons a l ih =>
      by_cases hroom : Room cap cost allowance used a
      · rcases ih (used + cost a) with hall | ⟨before, b, after, rfl, hbefore, hfull⟩
        · exact .inl (all_cons.mpr ⟨hroom, hall⟩)
        · refine .inr ⟨a :: before, b, after, rfl, all_cons.mpr ⟨hroom, hbefore⟩, ?_⟩
          rwa [List.map_cons, List.sum_cons, ← Nat.add_assoc]
      · exact .inr ⟨[], a, l, rfl, rfl, by simpa using hroom⟩

end Admission
