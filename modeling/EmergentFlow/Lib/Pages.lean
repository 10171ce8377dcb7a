import Mathlib.Data.List.Basic
import Mathlib.Data.Nat.Basic

/-!
# Lib — Pages

A list cut into consecutive pages of one size. The last page may be shorter, the page behind it
is empty, and the first pages together are the front of the list. No list has a page of no
items: of a size that is not positive every list has no pages.
-/

namespace Pages

variable {α : Type} (size : Int) (l : List α)

/-- The items of page `k`. -/
def page (k : Nat) : List α := (l.drop (k * size.toNat)).take size.toNat

/-- How many pages there are. -/
def count : Nat := (l.length + size.toNat - 1) / size.toNat

/-- All pages, in order. -/
def split : List (List α) := (List.range (count size l)).map (page size l)

-- of a size that is not positive there are no pages
example : split (-2) [1, 2, 3] = [] ∧ split 2 [1, 2, 3] = [[1, 2], [3]] := ⟨rfl, rfl⟩

theorem length_split : (split size l).length = count size l := by
  rw [split, List.length_map, List.length_range]

variable {size l}

/-- A page is empty from the end of the list on. -/
theorem page_eq_nil_iff {k : Nat} : page size l k = [] ↔ count size l ≤ k := by
  rw [page, List.take_eq_nil_iff, List.drop_eq_nil_iff, count]
  rcases Nat.eq_zero_or_pos size.toNat with hzero | hpos
  · simp [hzero]
  · rw [Nat.div_le_iff_le_mul hpos]
    omega

theorem getElem?_split (k : Nat) : (split size l)[k]?.getD [] = page size l k := by
  by_cases hk : k < count size l
  · simp [split, hk]
  · have hempty : page size l k = [] := page_eq_nil_iff.mpr (Nat.not_lt.mp hk)
    simp [split, hk, hempty]

/-- The first pages are the front of the list. -/
theorem flatMap_page (n : Nat) :
    (List.range n).flatMap (page size l) = l.take (n * size.toNat) := by
  induction n with
  | zero => simp
  | succ n ih =>
      rw [List.range_succ, List.flatMap_append, ih, Nat.succ_mul, List.take_add]
      simp [page]

variable (size l) in
theorem flatten_take_split (n : Nat) :
    ((split size l).take n).flatten = l.take (min n (count size l) * size.toNat) := by
  rw [split, ← List.map_take, List.take_range, ← flatMap_page, List.flatMap_def]

/-- All pages together are the list, if the size is positive. -/
theorem flatten_split (h : 0 < size) : (split size l).flatten = l := by
  have hall := flatten_take_split size l (count size l)
  rw [List.take_of_length_le (Nat.le_of_eq (length_split size l)), Nat.min_self] at hall
  have hpos : 0 < size.toNat := by omega
  have hdiv := Nat.div_add_mod (l.length + size.toNat - 1) size.toNat
  have hmod := Nat.mod_lt (l.length + size.toNat - 1) hpos
  have hle : l.length ≤ count size l * size.toNat := by
    rw [count, Nat.mul_comm]
    omega
  rw [hall, List.take_of_length_le hle]

end Pages
