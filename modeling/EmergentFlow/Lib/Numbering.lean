import Mathlib.Data.List.Nodup
import Mathlib.Algebra.BigOperators.Group.List.Basic
import Mathlib.Algebra.GroupWithZero.Nat
import EmergentFlow.Lib.StableSort

/-!
# Numbering — places in a list that grows

Each element of a list adds some items to another list, which has `k` items at first. An
element is numbered with the length that list has when it is its turn, the place of its own
first item.
-/

namespace Numbering

variable {α β : Type}

/-- The elements with their numbers. -/
def numbered (weight : α → Nat) (k : Nat) : List α → List (α × Nat)
  | [] => []
  | a :: rest => (a, k) :: numbered weight (k + weight a) rest

variable {weight : α → Nat} {k : Nat} {l : List α}

theorem numbered_append (weight : α → Nat) (k : Nat) (l l' : List α) :
    numbered weight k (l ++ l') =
      numbered weight k l ++ numbered weight (k + (l.map weight).sum) l' := by
  induction l generalizing k with
  | nil => rfl
  | cons a l ih =>
      rw [List.cons_append, numbered, numbered, ih, List.map_cons, List.sum_cons, Nat.add_assoc]
      rfl

@[simp] theorem map_fst_numbered (weight : α → Nat) (k : Nat) (l : List α) :
    (numbered weight k l).map Prod.fst = l := by
  induction l generalizing k with
  | nil => rfl
  | cons a l ih => rw [numbered, List.map_cons, ih]

theorem le_of_mem {x : α × Nat} (h : x ∈ numbered weight k l) : k ≤ x.2 := by
  induction l generalizing k with
  | nil => cases h
  | cons a l ih =>
      rcases List.mem_cons.mp h with rfl | h
      · exact Nat.le_refl k
      · have := ih h
        omega

/-- The items of an element end before those of the next begin. -/
theorem pairwise_numbered (weight : α → Nat) (k : Nat) (l : List α) :
    (numbered weight k l).Pairwise fun x y => x.2 + weight x.1 ≤ y.2 := by
  induction l generalizing k with
  | nil => exact List.Pairwise.nil
  | cons a l ih => exact List.Pairwise.cons (fun x hx => le_of_mem hx) (ih _)

/-- Elements that add items have numbers of their own. -/
theorem eq_of_number_eq {x y : α × Nat} (hx : x ∈ numbered weight k l)
    (hy : y ∈ numbered weight k l)
    (hposx : 0 < weight x.1) (hposy : 0 < weight y.1) (heq : x.2 = y.2) : x = y := by
  by_contra hne
  have hpairwise : ∀ {a b}, [a, b].Sublist (numbered weight k l) → a.2 + weight a.1 ≤ b.2 :=
    List.pairwise_iff_forall_sublist.mp (pairwise_numbered weight k l)
  rcases StableSort.pair_or_swap hx hy hne with hpair | hpair
  · have := hpairwise hpair
    omega
  · have := hpairwise hpair
    omega

/-- An element that adds one item or none: its item stands at its number. -/
theorem zipIdx_filterMap (f : α → Option β) (k : Nat) (l : List α) :
    (l.filterMap f).zipIdx k =
      (numbered (fun a => (f a).toList.length) k l).filterMap fun x => (f x.1).map (·, x.2) := by
  induction l generalizing k with
  | nil => rfl
  | cons a l ih =>
      rw [numbered, List.filterMap_cons, List.filterMap_cons]
      cases hitem : f a with
      | none => exact ih k
      | some b => exact congrArg _ (ih (k + 1))

theorem length_filterMap (f : α → Option β) (l : List α) :
    (l.filterMap f).length = (l.map fun a => (f a).toList.length).sum := by
  induction l with
  | nil => rfl
  | cons a l ih =>
      rw [List.filterMap_cons, List.map_cons, List.sum_cons, ← ih]
      cases f a with
      | none => simp
      | some b => simp [Nat.add_comm]

end Numbering
