import Mathlib.Data.List.Infix

/-!
# Split — pieces between separators

Splitting at a separator of any length, from the left and without overlaps.
The last piece is what is left over; a list that arrives in parts can be
split part by part when the last piece is carried over (`split_append`).
-/

namespace Split

variable {α : Type} [DecidableEq α]

/-- Put an item in front of the first piece. -/
def consFirst (a : α) : List (List α) → List (List α)
  | [] => [[a]]
  | piece :: pieces => (a :: piece) :: pieces

/-- The pieces between the separators. -/
def split (sep : List α) (hsep : sep ≠ []) : List α → List (List α)
  | [] => [[]]
  | a :: rest =>
      if sep <+: a :: rest then [] :: split sep hsep ((a :: rest).drop sep.length)
      else consFirst a (split sep hsep rest)
termination_by l => l.length
decreasing_by
  · have := List.length_pos_iff.mpr hsep
    simp only [List.length_drop, List.length_cons]
    omega
  · simp

/-- The piece after the last separator. -/
def leftover (pieces : List (List α)) : List α := pieces.getLast?.getD []

variable {sep : List α} (hsep : sep ≠ [])

theorem split_nil : split sep hsep [] = [[]] := by
  rw [split]

/-- A separator ends the first piece. -/
theorem split_sep (rest : List α) : split sep hsep (sep ++ rest) = [] :: split sep hsep rest := by
  obtain ⟨a, tail, htail⟩ := List.exists_cons_of_ne_nil (List.append_ne_nil_of_left_ne_nil hsep rest)
  have hdrop : (a :: tail).drop sep.length = rest := by
    rw [← htail, List.drop_left]
  rw [htail, split, if_pos (htail ▸ List.prefix_append sep rest), hdrop]

/-- Any other item goes to the first piece. -/
theorem split_cons {a : α} {rest : List α} (h : ¬ sep <+: a :: rest) :
    split sep hsep (a :: rest) = consFirst a (split sep hsep rest) := by
  rw [split, if_neg h]

theorem split_ne_nil (l : List α) : split sep hsep l ≠ [] := by
  fun_cases split sep hsep l with
  | case1 => exact List.cons_ne_nil _ _
  | case2 => exact List.cons_ne_nil _ _
  | case3 a rest _ => cases split sep hsep rest <;> exact List.cons_ne_nil _ _

/-- A list without a separator is one piece. -/
theorem split_of_absent {l : List α} (h : ¬ sep <:+: l) : split sep hsep l = [l] := by
  induction l with
  | nil => exact split_nil hsep
  | cons a rest ih =>
      have hrest := ih fun hsub => h (hsub.trans (List.suffix_cons a rest).isInfix)
      rw [split_cons hsep fun hstart => h hstart.isInfix, hrest]
      rfl

/-- Only a list without a separator is one piece. -/
theorem eq_of_split {l piece : List α} (h : split sep hsep l = [piece]) : l = piece := by
  induction l generalizing piece with
  | nil =>
      rw [split_nil] at h
      exact List.head_eq_of_cons_eq h
  | cons a rest ih =>
      by_cases hstart : sep <+: a :: rest
      · obtain ⟨after, hafter⟩ := hstart
        rw [← hafter, split_sep] at h
        exact absurd (List.tail_eq_of_cons_eq h) (split_ne_nil hsep after)
      · rw [split_cons hsep hstart] at h
        cases hrest : split sep hsep rest with
        | nil => exact absurd hrest (split_ne_nil hsep rest)
        | cons first pieces =>
            rw [hrest] at h
            obtain ⟨rfl, rfl⟩ := List.cons.inj h
            rw [ih hrest]

theorem dropLast_append_leftover (l : List α) :
    (split sep hsep l).dropLast ++ [leftover (split sep hsep l)] = split sep hsep l := by
  rw [leftover, List.getLast?_eq_some_getLast (split_ne_nil hsep l), Option.getD_some]
  exact List.dropLast_append_getLast _

/-- Splitting in two parts: the pieces that are complete after the first
part stay, and the piece left over goes on with the second. -/
theorem split_append (l m : List α) :
    split sep hsep (l ++ m) =
      (split sep hsep l).dropLast ++ split sep hsep (leftover (split sep hsep l) ++ m) := by
  fun_induction split sep hsep l with
  | case1 => rfl
  | case2 a rest hstart ih =>
      obtain ⟨after, hafter⟩ := hstart
      have hdrop : (a :: rest).drop sep.length = after := by
        rw [← hafter, List.drop_left]
      rw [hdrop] at ih ⊢
      have hne := split_ne_nil hsep after
      rw [← hafter, List.append_assoc, split_sep, ih, List.dropLast_cons_of_ne_nil hne,
        List.cons_append, leftover, leftover, List.getLast?_cons_of_ne_nil hne]
  | case3 a rest hstart ih =>
      cases hrest : split sep hsep rest with
      | nil => exact absurd hrest (split_ne_nil hsep rest)
      | cons piece pieces =>
          cases pieces with
          | nil =>
              -- no separator yet: everything is left over
              rw [eq_of_split hsep hrest]
              rfl
          | cons second pieces =>
              -- the rest holds a separator, so none can start here in the longer list either
              rw [hrest] at ih
              have hsub : sep <:+: rest := by
                by_contra hnone
                rw [split_of_absent hsep hnone] at hrest
                cases hrest
              have hlonger : ¬ sep <+: a :: (rest ++ m) := fun h =>
                hstart (List.prefix_of_prefix_length_le h (List.prefix_append (a :: rest) m)
                  (Nat.le_succ_of_le hsub.length_le))
              rw [List.cons_append, split_cons hsep hlonger, ih]
              rfl

/-- Splitting what is left over gives it back. -/
theorem split_leftover (l : List α) :
    split sep hsep (leftover (split sep hsep l)) = [leftover (split sep hsep l)] := by
  have h := split_append hsep l []
  rw [List.append_nil, List.append_nil] at h
  exact (List.append_cancel_left ((dropLast_append_leftover hsep l).trans h)).symm

/-- Items that begin no separator, and then a separator: a piece of its own. -/
theorem split_piece {piece : List α} (h : ∀ a ∈ piece, sep.head hsep ≠ a) (rest : List α) :
    split sep hsep (piece ++ (sep ++ rest)) = piece :: split sep hsep rest := by
  induction piece with
  | nil => exact split_sep hsep rest
  | cons a piece ih =>
      have hstart : ¬ sep <+: a :: (piece ++ (sep ++ rest)) := fun hstart =>
        h a List.mem_cons_self (List.IsPrefix.head hstart hsep)
      rw [List.cons_append, split_cons hsep hstart,
        ih fun b hb => h b (List.mem_cons_of_mem _ hb)]
      rfl

end Split
