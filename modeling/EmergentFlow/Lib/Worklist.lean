import Mathlib.Data.List.Nodup
import Mathlib.Logic.Relation
import Mathlib.Algebra.GroupWithZero.Nat

/-!
# Worklist — what can be reached

The loop that pops a node from a stack and, unless it has been seen,
pushes its successors. With fuel for every push it collects exactly what a
path leads to (`mem_reach_iff`).
-/

namespace Worklist

variable {α : Type} [DecidableEq α]

/-- The loop, from a stack and the nodes seen. -/
def run (succ : α → List α) : Nat → List α → List α → List α
  | 0, _, seen => seen
  | _ + 1, [], seen => seen
  | fuel + 1, current :: stack, seen =>
      if current ∈ seen then run succ fuel stack seen
      else run succ fuel (succ current ++ stack) (current :: seen)

/-- One step of a path. -/
def Step (succ : α → List α) (a b : α) : Prop := b ∈ succ a

/-- What the nodes not yet seen can still push. -/
def cost (succ : α → List α) (all seen : List α) : Nat :=
  (all.map fun a => if a ∈ seen then 0 else (succ a).length).sum

variable {succ : α → List α}

/-- Seeing a node pays for its pushes. -/
theorem cost_cons {all seen : List α} {current : α} (hnodup : all.Nodup)
    (hall : succ current ≠ [] → current ∈ all) (hfresh : current ∉ seen) :
    cost succ all (current :: seen) + (succ current).length ≤ cost succ all seen := by
  induction all with
  | nil =>
      have hnone : succ current = [] := by
        by_contra h
        exact List.not_mem_nil (hall h)
      simp [cost, hnone]
  | cons a all ih =>
      rw [List.nodup_cons] at hnodup
      simp only [cost, List.map_cons, List.sum_cons, List.mem_cons] at ih ⊢
      by_cases ha : a = current
      · subst ha
        -- the rest of the list does not hold the node again
        have hsame : all.map (fun b => if b = a ∨ b ∈ seen then 0 else (succ b).length) =
            all.map fun b => if b ∈ seen then 0 else (succ b).length := by
          apply List.map_congr_left
          intro b hb
          have hne : b ≠ a := fun heq => hnodup.1 (heq ▸ hb)
          simp [hne]
        rw [hsame, if_pos (.inl rfl), if_neg hfresh]
        omega
      · have hrest := ih hnodup.2 fun h => (List.mem_cons.mp (hall h)).resolve_left (Ne.symm ha)
        simp only [ha, false_or]
        omega

/-- What the loop collects was seen, or a path leads to it. -/
theorem run_sound {fuel : Nat} {stack seen : List α} {b : α} (h : b ∈ run succ fuel stack seen) :
    b ∈ seen ∨ ∃ a ∈ stack, Relation.ReflTransGen (Step succ) a b := by
  induction fuel generalizing stack seen with
  | zero => exact .inl h
  | succ fuel ih =>
      cases stack with
      | nil => exact .inl h
      | cons current stack =>
          rw [run] at h
          split at h
          · rcases ih h with hseen | ⟨a, ha, hpath⟩
            · exact .inl hseen
            · exact .inr ⟨a, List.mem_cons_of_mem _ ha, hpath⟩
          · rcases ih h with hseen | ⟨a, ha, hpath⟩
            · rcases List.mem_cons.mp hseen with rfl | hseen
              · exact .inr ⟨b, List.mem_cons_self, .refl⟩
              · exact .inl hseen
            · rcases List.mem_append.mp ha with ha | ha
              · exact .inr ⟨current, List.mem_cons_self, .head ha hpath⟩
              · exact .inr ⟨a, List.mem_cons_of_mem _ ha, hpath⟩

/-- With enough fuel the loop empties the stack, and what it collects is
closed under steps. -/
theorem run_complete {all : List α} (hnodup : all.Nodup) (hall : ∀ a, succ a ≠ [] → a ∈ all)
    {fuel : Nat} {stack seen : List α} (hfuel : stack.length + cost succ all seen ≤ fuel)
    (hseen : ∀ a ∈ seen, ∀ b ∈ succ a, b ∈ seen ∨ b ∈ stack) :
    (∀ a, a ∈ seen ∨ a ∈ stack → a ∈ run succ fuel stack seen) ∧
      ∀ a ∈ run succ fuel stack seen, ∀ b ∈ succ a, b ∈ run succ fuel stack seen := by
  induction fuel generalizing stack seen with
  | zero =>
      have hempty : stack = [] := List.eq_nil_of_length_eq_zero (by omega)
      subst hempty
      exact ⟨fun a ha => by simpa [run] using ha,
        fun a ha b hb => by simpa [run] using hseen a (by simpa [run] using ha) b hb⟩
  | succ fuel ih =>
      cases stack with
      | nil =>
          exact ⟨fun a ha => by simpa [run] using ha,
            fun a ha b hb => by simpa [run] using hseen a (by simpa [run] using ha) b hb⟩
      | cons current stack =>
          rw [List.length_cons] at hfuel
          rw [run]
          split
          · rename_i hcurrent
            -- what is seen again is taken off the stack and owes nothing
            have hseen' : ∀ a ∈ seen, ∀ b ∈ succ a, b ∈ seen ∨ b ∈ stack := by
              intro a ha b hb
              rcases hseen a ha b hb with h | h
              · exact .inl h
              · rcases List.mem_cons.mp h with rfl | h
                · exact .inl hcurrent
                · exact .inr h
            obtain ⟨hkept, hclosed⟩ := ih (by omega) hseen'
            refine ⟨fun a ha => hkept a ?_, hclosed⟩
            rcases ha with ha | ha
            · exact .inl ha
            · rcases List.mem_cons.mp ha with rfl | ha
              · exact .inl hcurrent
              · exact .inr ha
          · rename_i hcurrent
            -- a new item pays for the successors it puts on the stack
            have hcost := cost_cons hnodup (hall current) hcurrent
            have hseen' : ∀ a ∈ current :: seen, ∀ b ∈ succ a,
                b ∈ current :: seen ∨ b ∈ succ current ++ stack := by
              intro a ha b hb
              rcases List.mem_cons.mp ha with rfl | ha
              · exact .inr (List.mem_append_left _ hb)
              · rcases hseen a ha b hb with h | h
                · exact .inl (List.mem_cons_of_mem _ h)
                · rcases List.mem_cons.mp h with rfl | h
                  · exact .inl List.mem_cons_self
                  · exact .inr (List.mem_append_right _ h)
            obtain ⟨hkept, hclosed⟩ := ih (by rw [List.length_append]; omega) hseen'
            refine ⟨fun a ha => hkept a ?_, hclosed⟩
            rcases ha with ha | ha
            · exact .inl (List.mem_cons_of_mem _ ha)
            · rcases List.mem_cons.mp ha with rfl | ha
              · exact .inl List.mem_cons_self
              · exact .inr (List.mem_append_right _ ha)

/-- What the successors of a node lead to, themselves included. -/
def reach (succ : α → List α) (fuel : Nat) (start : α) : List α := run succ fuel (succ start) []

/-- Exactly what a path of at least one step leads to. -/
theorem mem_reach_iff {all : List α} (hnodup : all.Nodup) (hall : ∀ a, succ a ≠ [] → a ∈ all)
    {fuel : Nat} {start : α}
    (hfuel : (succ start).length + (all.map fun a => (succ a).length).sum ≤ fuel) {b : α} :
    b ∈ reach succ fuel start ↔ Relation.TransGen (Step succ) start b := by
  have hcost : cost succ all [] = (all.map fun a => (succ a).length).sum := by simp [cost]
  obtain ⟨hkept, hclosed⟩ := @run_complete _ _ succ all hnodup hall fuel (succ start) []
    (by omega) (by simp)
  constructor
  · intro hb
    rcases run_sound hb with hseen | ⟨a, ha, hpath⟩
    · cases hseen
    · exact .head' ha hpath
  · intro hpath
    induction hpath with
    | single hstep => exact hkept _ (.inr hstep)
    | tail _ hstep ih => exact hclosed _ ih _ hstep

/-- With enough fuel, exactly what a path from the start leads to. -/
theorem mem_run_iff {all : List α} (hnodup : all.Nodup) (hall : ∀ a, succ a ≠ [] → a ∈ all)
    {fuel : Nat} {start : α} (hfuel : 1 + (all.map fun a => (succ a).length).sum ≤ fuel) {b : α} :
    b ∈ run succ fuel [start] [] ↔ Relation.ReflTransGen (Step succ) start b := by
  have hcost : cost succ all [] = (all.map fun a => (succ a).length).sum := by simp [cost]
  obtain ⟨hkept, hclosed⟩ := @run_complete _ _ succ all hnodup hall fuel [start] []
    (by rw [hcost]; exact hfuel) (by simp)
  constructor
  · intro hb
    rcases run_sound hb with hseen | ⟨a, ha, hpath⟩
    · cases hseen
    · exact List.mem_singleton.mp ha ▸ hpath
  · intro hpath
    induction hpath with
    | refl => exact hkept _ (.inr List.mem_cons_self)
    | tail _ hstep ih => exact hclosed _ ih _ hstep

/-! ## Searching -/

/-- The loop that stops as soon as it pops the target. -/
def search (succ : α → List α) (target : α) : Nat → List α → List α → Bool
  | 0, _, _ => false
  | _ + 1, [], _ => false
  | fuel + 1, current :: stack, seen =>
      if current = target then true
      else if current ∈ seen then search succ target fuel stack seen
      else search succ target fuel (succ current ++ stack) (current :: seen)

theorem seen_subset_run {fuel : Nat} {stack seen : List α} {b : α} (h : b ∈ seen) :
    b ∈ run succ fuel stack seen := by
  induction fuel generalizing stack seen with
  | zero => exact h
  | succ fuel ih =>
      cases stack with
      | nil => exact h
      | cons current stack =>
          rw [run]
          split
          · exact ih h
          · exact ih (List.mem_cons_of_mem _ h)

/-- The search finds what the full loop collects. -/
theorem search_eq_mem_run {target : α} {fuel : Nat} {stack seen : List α} (h : target ∉ seen) :
    search succ target fuel stack seen = true ↔ target ∈ run succ fuel stack seen := by
  induction fuel generalizing stack seen with
  | zero => simp [search, run, h]
  | succ fuel ih =>
      cases stack with
      | nil => simp [search, run, h]
      | cons current stack =>
          rw [search, run]
          by_cases hcurrent : current = target
          · subst hcurrent
            rw [if_pos rfl, if_neg h]
            exact iff_of_true rfl (seen_subset_run List.mem_cons_self)
          · rw [if_neg hcurrent]
            split
            · exact ih h
            · apply ih
              rw [List.mem_cons, not_or]
              exact ⟨Ne.symm hcurrent, h⟩

end Worklist
