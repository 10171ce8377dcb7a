import EmergentFlow.Lib.Checks

/-!
# Room — recursion on a bounded stack

A recursive walk down a tree has room for finitely many levels. What it comes
to is a list in the order of the walk: `some a` for a value it reaches, `none`
where the stack ends. A walk that checks what it reaches stops at the first
value it rejects, so it runs out of stack only when a `none` comes before that.
-/

universe u v

namespace Room

variable {α : Type u} {ε : Type v}

/-- All that a walk with that much room comes to, parents first. -/
def walk (children : α → List α) : Nat → α → List (Option α)
  | 0, _ => [none]
  | room + 1, a => some a :: (children a).flatMap (walk children room)

/-- The stack ends before anything is reached that is not `ok`. -/
def Overflows (ok : α → Bool) (l : List (Option α)) : Prop :=
  none ∈ l.takeWhile fun o => o.all ok

instance (ok : α → Bool) (l : List (Option α)) : Decidable (Overflows ok l) :=
  decidable_of_iff ((l.takeWhile fun o => o.all ok).any Option.isNone = true) <| by
    rw [List.any_eq_true, Overflows]
    constructor
    · rintro ⟨o, ho, hnone⟩
      rwa [Option.isNone_iff_eq_none.mp hnone] at ho
    · intro h
      exact ⟨none, h, rfl⟩

theorem not_overflows_nil (ok : α → Bool) : ¬ Overflows ok [] := nofun

theorem overflows_none (ok : α → Bool) (l : List (Option α)) : Overflows ok (none :: l) := by
  simp [Overflows]

theorem overflows_some {ok : α → Bool} {a : α} {l : List (Option α)} :
    Overflows ok (some a :: l) ↔ ok a = true ∧ Overflows ok l := by
  cases h : ok a <;> simp [Overflows, h]

/-- Where everything is `ok`, the stack ends or not. -/
theorem overflows_iff {ok : α → Bool} {l : List (Option α)}
    (h : ∀ a, some a ∈ l → ok a = true) : Overflows ok l ↔ none ∈ l := by
  induction l with
  | nil => simp [not_overflows_nil]
  | cons o l ih =>
      have ih := ih fun a ha => h a (List.mem_cons_of_mem _ ha)
      cases o with
      | none => simp [overflows_none]
      | some a => simp [overflows_some, h a List.mem_cons_self, ih]

/-- A walk raises `err`, which stands for the end of the stack and nothing
else, exactly when it overflows. -/
theorem forM_eq_error_iff {check : Option α → Except ε Unit} {ok : α → Bool} {err : ε}
    {l : List (Option α)} (hend : check none = .error err)
    (hother : ∀ a, some a ∈ l → check (some a) ≠ .error err)
    (hok : ∀ a, some a ∈ l → (check (some a) = .ok () ↔ ok a = true)) :
    l.forM check = .error err ↔ Overflows ok l := by
  induction l with
  | nil => simp [not_overflows_nil, pure, Except.pure]
  | cons o l ih =>
      have ih := ih (fun a ha => hother a (List.mem_cons_of_mem _ ha))
        fun a ha => hok a (List.mem_cons_of_mem _ ha)
      rw [show (o :: l).forM check = (check o >>= fun _ => l.forM check) from rfl,
        Checks.bind_eq_error]
      cases o with
      | none => simp [hend, overflows_none]
      | some a =>
          rw [overflows_some, ← hok a List.mem_cons_self, ← ih]
          constructor
          · rintro (h | ⟨⟨⟩, hcheck, hl⟩)
            · exact absurd h (hother a List.mem_cons_self)
            · exact ⟨hcheck, hl⟩
          · rintro ⟨hcheck, hl⟩
            exact .inr ⟨(), hcheck, hl⟩

theorem mem_walk_succ {children : α → List α} {room : Nat} {a : α} {o : Option α} :
    o ∈ walk children (room + 1) a ↔ o = some a ∨ ∃ b ∈ children a, o ∈ walk children room b := by
  simp [walk]

end Room
