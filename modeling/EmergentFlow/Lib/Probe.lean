import Mathlib.Data.Finset.Card

/-!
# Probe — the first free place

Places are tried in order until one is not taken. Distinct tries are
distinct places, so a finite set of taken ones ends the search.
-/

namespace Probe

variable {α : Type} [DecidableEq α] {place : Nat → α}

/-- What is taken and has not been tried before this step. -/
def ahead (place : Nat → α) (taken : Finset α) (step : Nat) : Finset α :=
  taken.filter fun a => ∀ tried ∈ List.range step, a ≠ place tried

theorem card_ahead_lt (hplace : Function.Injective place) {taken : Finset α} {step : Nat}
    (h : place step ∈ taken) : (ahead place taken (step + 1)).card < (ahead place taken step).card := by
  apply Finset.card_lt_card
  rw [Finset.ssubset_iff_of_subset]
  · refine ⟨place step, Finset.mem_filter.mpr ⟨h, fun tried htried heq => ?_⟩, fun hmem => ?_⟩
    · exact absurd (hplace heq) (Nat.ne_of_gt (List.mem_range.mp htried))
    · exact (Finset.mem_filter.mp hmem).2 step (List.mem_range.mpr (Nat.lt_succ_self step)) rfl
  · intro a ha
    obtain ⟨htaken, hfresh⟩ := Finset.mem_filter.mp ha
    refine Finset.mem_filter.mpr ⟨htaken, fun tried htried => hfresh tried ?_⟩
    exact List.mem_range.mpr (Nat.lt_succ_of_lt (List.mem_range.mp htried))

/-- The first step from this one on whose place is free. -/
def firstFree (hplace : Function.Injective place) (taken : Finset α) (step : Nat) : Nat :=
  if _htaken : place step ∈ taken then firstFree hplace taken (step + 1) else step
termination_by (ahead place taken step).card
decreasing_by exact card_ahead_lt hplace _htaken

theorem firstFree_notMem (hplace : Function.Injective place) (taken : Finset α) (step : Nat) :
    place (firstFree hplace taken step) ∉ taken := by
  fun_induction firstFree hplace taken step with
  | case1 step htaken ih => exact ih
  | case2 step hfree => exact hfree

end Probe
