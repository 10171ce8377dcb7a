import Mathlib.Data.List.Basic

/-!
# Windows — overlapping pieces of a list

Windows of one size that start a fixed step apart and stop at the first that
reaches the end. Consecutive windows share what the step leaves of the size;
without it they are the list again (`rejoin_slide`).
-/

namespace Windows

variable {α : Type}

/-- The windows from a start on. -/
def slide (size step : Nat) (hstep : 0 < step) (l : List α) (start : Nat) : List (List α) :=
  if start < l.length then
    let window := (l.drop start).take size
    if l.length ≤ start + size then [window]
    else window :: slide size step hstep l (start + step)
  else []
termination_by l.length - start

/-- The windows without what each repeats of the one before. -/
def rejoin (overlap : Nat) : List (List α) → List α
  | [] => []
  | window :: rest => window ++ rest.flatMap (List.drop overlap)

variable {size step : Nat} {hstep : 0 < step} {l : List α} {start : Nat}

theorem slide_ne_nil (h : start < l.length) : slide size step hstep l start ≠ [] := by
  rw [slide, if_pos h]
  split <;> exact List.cons_ne_nil _ _

theorem length_le_of_mem_slide {window : List α} (h : window ∈ slide size step hstep l start) :
    window.length ≤ size := by
  fun_induction slide size step hstep l start with
  | case1 start hlt first hlast =>
      rw [List.mem_singleton.mp h]
      exact List.length_take_le size _
  | case2 start hlt first hmore ih =>
      rcases List.mem_cons.mp h with rfl | hrest
      · exact List.length_take_le size _
      · exact ih hrest
  | case3 start hend => cases h

/-- The windows from a start on cover the list from there on. The next
window is longer than the overlap, since the one before it did not reach the end. -/
theorem rejoin_slide (hsize : step ≤ size) (h : start < l.length) :
    rejoin (size - step) (slide size step hstep l start) = l.drop start := by
  fun_induction slide size step hstep l start with
  | case1 start hlt first hlast =>
      have hlength : (l.drop start).length ≤ size := by
        rw [List.length_drop]
        omega
      simp [rejoin, first, List.take_of_length_le hlength]
  | case2 start hlt first hmore ih =>
      have hnext : start + step < l.length := by omega
      have hrest := ih hnext
      cases hslide : slide size step hstep l (start + step) with
      | nil => exact absurd hslide (slide_ne_nil hnext)
      | cons second windows =>
          rw [hslide] at hrest
          -- the next window is at least as long as the overlap
          have hsecond : size - step ≤ second.length := by
            rw [slide, if_pos hnext] at hslide
            have hhead : second = (l.drop (start + step)).take size := by
              split at hslide <;> exact (List.head_eq_of_cons_eq hslide).symm
            rw [hhead, List.length_take, List.length_drop]
            omega
          have hdrop : second.drop (size - step) ++ windows.flatMap (List.drop (size - step)) =
              l.drop (start + size) := by
            rw [← List.drop_append_of_le_length hsecond]
            change (rejoin (size - step) (second :: windows)).drop (size - step) = _
            rw [hrest, List.drop_drop]
            congr 1
            omega
          rw [rejoin, List.flatMap_cons, hdrop, ← List.drop_drop]
          exact List.take_append_drop size (l.drop start)
  | case3 start hend => exact absurd h hend

end Windows
