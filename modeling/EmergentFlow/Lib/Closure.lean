import Mathlib.Logic.Relation

/-!
# Closure — acyclic relations

What the transitive closure of a relation gains when one element gets new
successors, and when the relation stays acyclic.
-/

namespace Closure

open Relation

variable {α : Type*} {R : α → α → Prop} {S : α → Prop} {x a b : α}

def Acyclic (R : α → α → Prop) : Prop := ∀ a, ¬ TransGen R a a

/-- A relation along which some rank grows is acyclic. -/
theorem acyclic_of_rank (rank : α → Nat) (h : ∀ a b, R a b → rank a < rank b) : Acyclic R := by
  have hpath : ∀ {a b}, TransGen R a b → rank a < rank b := by
    intro a b hab
    induction hab with
    | single hstep => exact h _ _ hstep
    | tail _ hstep ih => exact Nat.lt_trans ih (h _ _ hstep)
  exact fun a haa => absurd (hpath haa) (Nat.lt_irrefl _)

/-- The relation with `S` as further successors of `x`. -/
def Extend (R : α → α → Prop) (x : α) (S : α → Prop) (a b : α) : Prop :=
  R a b ∨ (a = x ∧ S b)

/-- A path over the extended relation is an old one, or goes through one of
the new steps. -/
theorem transGen_extend (h : TransGen (Extend R x S) a b) :
    TransGen R a b ∨ ∃ s, S s ∧ ReflTransGen (Extend R x S) a x ∧
      ReflTransGen (Extend R x S) s b := by
  induction h with
  | single hstep =>
      rcases hstep with hold | ⟨rfl, hs⟩
      · exact .inl (.single hold)
      · exact .inr ⟨_, hs, .refl, .refl⟩
  | @tail c d hpath hstep ih =>
      rcases hstep with hold | ⟨rfl, hs⟩
      · rcases ih with hpath | ⟨s, hs, hx, hsc⟩
        · exact .inl (hpath.tail hold)
        · exact .inr ⟨s, hs, hx, hsc.tail (.inl hold)⟩
      · exact .inr ⟨_, hs, hpath.to_reflTransGen, .refl⟩

/-- New steps from `x` close no cycle when none of them leads back to `x`. -/
theorem Acyclic.extend (hR : Acyclic R) (hback : ∀ s, S s → ¬ ReflTransGen (Extend R x S) s x) :
    Acyclic (Extend R x S) := by
  intro a hcycle
  rcases transGen_extend hcycle with hold | ⟨s, hs, hx, hsa⟩
  · exact hR a hold
  · exact hback s hs (hsa.trans hx)

/-- Relations that agree on all that one of them reaches reach the same. -/
theorem reflTransGen_congr {S : α → α → Prop} {a : α}
    (h : ∀ b, ReflTransGen R a b → ∀ c, R b c ↔ S b c) (b : α) :
    ReflTransGen R a b ↔ ReflTransGen S a b := by
  constructor
  · intro hab
    induction hab with
    | refl => exact .refl
    | tail hreach hstep ih => exact ih.tail ((h _ hreach _).mp hstep)
  · intro hab
    induction hab with
    | refl => exact .refl
    | tail _ hstep ih => exact ih.tail ((h _ ih _).mpr hstep)

end Closure
