import Mathlib.Data.List.Basic

/-!
# Decimal — the texts of whole numbers

The decimal text of a whole number determines it, and its characters are
digits, with a sign in front of a negative one.
-/

namespace Decimal

/-- What a text of digits stands for. -/
def value (digits : List Char) : Nat := Nat.ofDigitChars 10 digits 0

@[simp] theorem value_repr (n : Nat) : value n.repr.toList = n := by
  rw [Nat.toList_repr]
  exact Nat.ofDigitChars_ten_toDigits

theorem repr_inj {m n : Nat} : m.repr = n.repr ↔ m = n := by
  constructor
  · intro h
    rw [← value_repr m, h, value_repr]
  · exact congrArg _

theorem isDigit_of_mem_repr {n : Nat} {c : Char} (h : c ∈ n.repr.toList) : c.isDigit = true := by
  rw [Nat.toList_repr] at h
  exact Nat.isDigit_of_mem_toDigits (by decide) (by decide) h

theorem repr_toList_ne_nil (n : Nat) : n.repr.toList ≠ [] := by
  rw [Nat.toList_repr]
  exact Nat.toDigits_ne_nil

/-- A character of the text of an integer is a digit or the sign. -/
theorem mem_int_repr {a : Int} {c : Char} (h : c ∈ a.repr.toList) : c.isDigit = true ∨ c = '-' := by
  rw [Int.repr_eq_if] at h
  split at h
  · exact .inl (isDigit_of_mem_repr h)
  · rw [String.toList_append, List.mem_append] at h
    rcases h with hsign | hdigit
    · exact .inr (by simpa using hsign)
    · exact .inl (isDigit_of_mem_repr hdigit)

theorem int_repr_inj {a b : Int} : a.repr = b.repr ↔ a = b := by
  -- the text of a natural number does not start with the sign
  have hsign : ∀ m n : Nat, m.repr ≠ "-" ++ n.repr := fun m n h => by
    have hmem : '-' ∈ m.repr.toList := by
      rw [h]
      simp
    cases isDigit_of_mem_repr hmem
  constructor
  · intro h
    rw [Int.repr_eq_if, Int.repr_eq_if] at h
    split at h <;> split at h
    · have := repr_inj.mp h
      omega
    · exact absurd h (hsign _ _)
    · exact absurd h.symm (hsign _ _)
    · have := repr_inj.mp ((String.append_right_inj _).mp h)
      omega
  · exact congrArg _

/-! ## Numbered texts -/

/-- What stands before the first separator, and what after it. -/
theorem append_cons_inj {α : Type} {a : α} {x y z w : List α} (hx : a ∉ x) (hy : a ∉ y) :
    x ++ a :: z = y ++ a :: w ↔ x = y ∧ z = w := by
  constructor
  · intro h
    induction x generalizing y with
    | nil =>
        cases y with
        | nil => exact ⟨rfl, List.tail_eq_of_cons_eq h⟩
        | cons b y => exact absurd (List.head_eq_of_cons_eq h ▸ List.mem_cons_self) hy
    | cons b x ih =>
        cases y with
        | nil => exact absurd (List.head_eq_of_cons_eq h ▸ List.mem_cons_self) hx
        | cons c y =>
            obtain ⟨rfl, hrest⟩ := List.cons.inj h
            obtain ⟨rfl, rfl⟩ := ih (fun hmem => hx (List.mem_cons_of_mem _ hmem))
              (fun hmem => hy (List.mem_cons_of_mem _ hmem)) hrest
            exact ⟨rfl, rfl⟩
  · rintro ⟨rfl, rfl⟩
    rfl

/-- A name and a number behind a separator that is no digit: both can be
read off, whatever the name holds. -/
theorem numbered_inj {s t sep : String} {c : Char} (hsep : sep = String.ofList [c])
    (hc : c.isDigit = false) {m n : Nat} :
    s ++ sep ++ m.repr = t ++ sep ++ n.repr ↔ s = t ∧ m = n := by
  have hdigits : ∀ n : Nat, c ∉ n.repr.toList.reverse := fun n hmem => by
    rw [isDigit_of_mem_repr (List.mem_reverse.mp hmem)] at hc
    cases hc
  have hlist : ∀ (s : String) (n : Nat), (s ++ sep ++ n.repr).toList.reverse =
      n.repr.toList.reverse ++ c :: s.toList.reverse := fun s n => by
    simp only [hsep, String.toList_append, String.toList_ofList, List.reverse_append,
      List.reverse_cons, List.append_assoc, List.nil_append, List.cons_append]
  rw [← String.toList_inj, ← List.reverse_inj, hlist, hlist,
    append_cons_inj (hdigits m) (hdigits n), List.reverse_inj, List.reverse_inj,
    String.toList_inj, String.toList_inj, repr_inj, and_comm]

end Decimal
