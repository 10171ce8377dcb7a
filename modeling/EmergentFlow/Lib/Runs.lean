import Mathlib.Data.List.Induction

/-!
# Runs — folding steps over a state

Runs of a state machine whose every step is a total function of the state
and a label. `AllSteps` is a condition on each step of a run in the state
before it, `Between` a relation from every state of a run to every later
one; for a preorder the second is the first on single steps.
-/

namespace Runs

variable {σ α : Type*} {step : σ → α → σ} {s : σ}

/-- The state after a list of steps. -/
def run (step : σ → α → σ) (s : σ) (l : List α) : σ := l.foldl step s

@[simp] theorem run_nil : run step s [] = s := rfl

theorem run_append (l l' : List α) : run step s (l ++ l') = run step (run step s l) l' :=
  List.foldl_append

theorem run_concat (l : List α) (a : α) : run step s (l ++ [a]) = step (run step s l) a :=
  run_append l [a]

/-- A split of `l ++ [a]` at an element is one at `a` or one of `l`. -/
theorem concat_eq_split {l pre post : List α} {a b : α} :
    l ++ [a] = pre ++ b :: post ↔
      (post = [] ∧ l = pre ∧ a = b) ∨ ∃ rest, post = rest ++ [a] ∧ l = pre ++ b :: rest := by
  constructor
  · intro h
    rcases List.eq_nil_or_concat post with rfl | ⟨rest, c, rfl⟩
    · obtain ⟨hl, ha⟩ := List.append_inj' h rfl
      exact .inl ⟨rfl, hl, List.head_eq_of_cons_eq ha⟩
    · rw [List.concat_eq_append, ← List.cons_append, ← List.append_assoc] at h
      obtain ⟨hl, ha⟩ := List.append_inj' h rfl
      refine .inr ⟨rest, ?_, hl⟩
      rw [List.concat_eq_append, ha]
  · rintro (⟨rfl, rfl, rfl⟩ | ⟨rest, rfl, rfl⟩)
    · rfl
    · simp

/-! ## Conditions on each step -/

/-- Every step of the run meets the condition in the state before it. -/
def AllSteps (step : σ → α → σ) (ok : σ → α → Prop) (s : σ) (l : List α) : Prop :=
  ∀ pre a post, l = pre ++ a :: post → ok (run step s pre) a

theorem AllSteps.nil {ok : σ → α → Prop} : AllSteps step ok s [] := by
  intro pre a post h
  simp at h

theorem AllSteps.concat_iff {ok : σ → α → Prop} {l : List α} {a : α} :
    AllSteps step ok s (l ++ [a]) ↔ AllSteps step ok s l ∧ ok (run step s l) a := by
  constructor
  · intro h
    refine ⟨?_, h l a [] rfl⟩
    rintro pre b post rfl
    exact h pre b (post ++ [a]) (by simp)
  · rintro ⟨hl, ha⟩ pre b post h
    rcases concat_eq_split.mp h with ⟨-, rfl, rfl⟩ | ⟨rest, -, rfl⟩
    · exact ha
    · exact hl pre b rest rfl

/-- A property that every step keeps, given its condition, holds at the end
of a run whose steps all meet the condition. -/
theorem AllSteps.invariant {ok : σ → α → Prop} {P : σ → Prop} {l : List α}
    (hl : AllSteps step ok s l) (hstart : P s)
    (hstep : ∀ t a, P t → ok t a → P (step t a)) : P (run step s l) := by
  induction l using List.reverseRecOn with
  | nil => exact hstart
  | append_singleton l a ih =>
      rw [AllSteps.concat_iff] at hl
      rw [run_concat]
      exact hstep _ _ (ih hl.1) hl.2

/-- With an invariant, one condition on each step gives another. -/
theorem AllSteps.imp {ok ok' : σ → α → Prop} {P : σ → Prop} {l : List α}
    (hl : AllSteps step ok s l) (hstart : P s)
    (hstep : ∀ t a, P t → ok t a → P (step t a) ∧ ok' t a) : AllSteps step ok' s l := by
  rintro pre a post rfl
  have hpre : AllSteps step ok s pre := by
    rintro before b after rfl
    exact hl before b (after ++ a :: post) (by simp)
  have hinv := hpre.invariant hstart fun t b ht hb => (hstep t b ht hb).1
  exact (hstep _ a hinv (hl pre a post rfl)).2

/-- A property that every step keeps holds at the end of every run. -/
theorem invariant {P : σ → Prop} (hstart : P s) (hstep : ∀ t a, P t → P (step t a))
    (l : List α) : P (run step s l) := by
  have hl : AllSteps step (fun _ _ => True) s l := fun _ _ _ _ => trivial
  exact hl.invariant hstart fun t a ht _ => hstep t a ht

theorem AllSteps.drop {ok : σ → α → Prop} {pre l : List α} (h : AllSteps step ok s (pre ++ l)) :
    AllSteps step ok (run step s pre) l := by
  rintro pre' a post rfl
  rw [← run_append]
  exact h (pre ++ pre') a post (by simp)

theorem AllSteps.cons_iff {ok : σ → α → Prop} {a : α} {l : List α} :
    AllSteps step ok s (a :: l) ↔ ok s a ∧ AllSteps step ok (step s a) l := by
  constructor
  · intro h
    exact ⟨h [] a l rfl, AllSteps.drop (show AllSteps step ok s ([a] ++ l) from h)⟩
  · rintro ⟨ha, hl⟩ pre b post hsplit
    cases pre with
    | nil =>
        cases hsplit
        exact ha
    | cons c pre =>
        cases hsplit
        exact hl pre b post rfl

/-- A property that holds at the start and after a step exactly when the step
meets a condition holds in every state of a run exactly when every step meets
the condition. -/
theorem AllSteps.exact {ok : σ → α → Prop} {P : σ → Prop} {l : List α} (hstart : P s)
    (hstep : ∀ t a, P t → (P (step t a) ↔ ok t a)) :
    (∀ pre post, l = pre ++ post → P (run step s pre)) ↔ AllSteps step ok s l := by
  constructor
  · rintro h pre a post rfl
    have hnext := h (pre ++ [a]) post (by simp)
    rw [run_concat] at hnext
    exact (hstep _ a (h pre (a :: post) rfl)).mp hnext
  · rintro h pre post rfl
    have hpre : AllSteps step ok s pre := by
      rintro before a after rfl
      exact h before a (after ++ post) (by simp)
    exact hpre.invariant hstart fun t a ht ha => (hstep t a ht).mpr ha

/-- In a run whose steps meet a first condition, a property that such a step keeps
exactly when it meets a second one holds in every state exactly when every step
meets the second. -/
theorem AllSteps.exact_within {ok ok' : σ → α → Prop} {P : σ → Prop} {l : List α} (hstart : P s)
    (hl : AllSteps step ok' s l) (hstep : ∀ t a, P t → ok' t a → (P (step t a) ↔ ok t a)) :
    (∀ pre post, l = pre ++ post → P (run step s pre)) ↔ AllSteps step ok s l := by
  constructor
  · rintro h pre a post rfl
    have hnext := h (pre ++ [a]) post (by simp)
    rw [run_concat] at hnext
    exact (hstep _ a (h pre (a :: post) rfl) (hl pre a post rfl)).mp hnext
  · rintro h pre post rfl
    have hpre : AllSteps step (fun t a => ok' t a ∧ ok t a) s pre := by
      rintro before a after rfl
      exact ⟨hl before a (after ++ post) (by simp), h before a (after ++ post) (by simp)⟩
    exact hpre.invariant hstart fun t a ht ha => (hstep t a ht ha.1).mpr ha.2

/-- A property that every step keeps, unless it is one of a kind, holds at the
end of a run or such a step is in it. -/
theorem AllSteps.kept_or {P : σ → Prop} {Q : σ → α → Prop} {l : List α} (hstart : P s)
    (hl : AllSteps step (fun t a => P t → P (step t a) ∨ Q t a) s l) :
    P (run step s l) ∨ ∃ pre a post, l = pre ++ a :: post ∧ Q (run step s pre) a := by
  induction l using List.reverseRecOn with
  | nil => exact .inl hstart
  | append_singleton l a ih =>
      rw [AllSteps.concat_iff] at hl
      rcases ih hl.1 with hP | ⟨pre, b, post, rfl, hQ⟩
      · rw [run_concat]
        rcases hl.2 hP with hP' | hQ
        · exact .inl hP'
        · exact .inr ⟨l, a, [], rfl, hQ⟩
      · exact .inr ⟨pre, b, post ++ [a], by simp, hQ⟩

/-! ## Relations between the states of a run -/

/-- Every state of the run is related to every later one. -/
def Between (step : σ → α → σ) (R : σ → σ → Prop) (s : σ) (l : List α) : Prop :=
  ∀ pre mid post, l = pre ++ mid ++ post → R (run step s pre) (run step s (pre ++ mid))

/-- For a preorder it is enough to relate neighbours. -/
theorem between_iff {R : σ → σ → Prop} (hrefl : ∀ t, R t t)
    (htrans : ∀ {t u v}, R t u → R u v → R t v) {l : List α} :
    Between step R s l ↔ AllSteps step (fun t a => R t (step t a)) s l := by
  constructor
  · intro h pre a post hl
    have := h pre [a] post (by rw [hl]; simp)
    rwa [run_concat] at this
  · intro h pre mid
    induction mid using List.reverseRecOn with
    | nil =>
        intro post _
        rw [List.append_nil]
        exact hrefl _
    | append_singleton mid a ih =>
        intro post hl
        rw [← List.append_assoc, run_concat]
        apply htrans (ih (a :: post) (by rw [hl]; simp))
        exact h (pre ++ mid) a post (by rw [hl]; simp)

end Runs
