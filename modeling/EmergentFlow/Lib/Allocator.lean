import EmergentFlow.Lib.Dict
import EmergentFlow.Lib.Probe

/-!
# Allocator — one name for every key

Keys are named on first use with the first of their candidates that no key has. A key keeps
its name, and two keys never share one, whatever candidates they share.
-/

/-- The names given so far. -/
structure Allocator (κ α : Type) [DecidableEq κ] where
  memo : Dict κ α := Dict.empty
  used : Finset α := ∅
  mem_used : ∀ {k : κ} {a : α}, memo.get? k = some a → a ∈ used := by simp
  distinct : ∀ {j k : κ} {a : α}, memo.get? j = some a → memo.get? k = some a → j = k := by simp

namespace Allocator

variable {κ α : Type} [DecidableEq κ] [DecidableEq α] {candidate : κ → Nat → α}

/-- The name of a key, and the names given after that. -/
def alloc (hcandidate : ∀ k, Function.Injective (candidate k)) (names : Allocator κ α) (k : κ) :
    α × Allocator κ α :=
  match _h : names.memo.get? k with
  | some a => (a, names)
  | none =>
      let a := candidate k (Probe.firstFree (hcandidate k) names.used 0)
      have hfree : a ∉ names.used := Probe.firstFree_notMem (hcandidate k) names.used 0
      (a, {
        memo := names.memo.set k a
        used := insert a names.used
        mem_used := by
          intro j b hb
          rw [Dict.get?_set] at hb
          split at hb
          · cases hb
            exact Finset.mem_insert_self ..
          · exact Finset.mem_insert_of_mem (names.mem_used hb)
        distinct := by
          intro i j b hi hj
          rw [Dict.get?_set] at hi hj
          split at hi
          · cases hi
            split at hj
            · simp_all
            · exact absurd (names.mem_used hj) hfree
          · split at hj
            · cases hj
              exact absurd (names.mem_used hi) hfree
            · exact names.distinct hi hj })

variable (hcandidate : ∀ k, Function.Injective (candidate k)) (names : Allocator κ α)

/-- The key has the name from now on. -/
theorem get?_alloc (k : κ) :
    (alloc hcandidate names k).2.memo.get? k = some (alloc hcandidate names k).1 := by
  fun_cases alloc hcandidate names k with
  | case1 a h => exact h
  | case2 h => rw [Dict.get?_set, if_pos rfl]

/-- A key that has a name keeps it. -/
theorem get?_alloc_of_get? {j k : κ} {a : α} (h : names.memo.get? j = some a) :
    (alloc hcandidate names k).2.memo.get? j = some a := by
  fun_cases alloc hcandidate names k with
  | case1 => exact h
  | case2 hk =>
      have hne : k ≠ j := by
        rintro rfl
        rw [h] at hk
        cases hk
      rw [Dict.get?_set_ne _ _ hne]
      exact h

/-- A name is one of the candidates of its key. -/
theorem get?_alloc_cases {j k : κ} {a : α}
    (h : (alloc hcandidate names k).2.memo.get? j = some a) :
    names.memo.get? j = some a ∨ k = j ∧ ∃ i, a = candidate k i := by
  revert h
  fun_cases alloc hcandidate names k with
  | case1 => exact Or.inl
  | case2 =>
      intro h
      rw [Dict.get?_set] at h
      split at h
      · rename_i heq
        exact .inr ⟨heq, _, (Option.some.inj h).symm⟩
      · exact .inl h

end Allocator
