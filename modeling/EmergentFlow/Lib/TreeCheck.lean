import Mathlib.Logic.Relation
import EmergentFlow.Lib.Checks

/-!
# TreeCheck — checkers that walk a tree

A checker that looks at a node, may fail there, and then goes on to the
children of the node with what it knows of the way to them. Its result on
a tree is what it finds on the nodes it reaches: it returns when it fails on
none of them, and returns nothing when it finds nothing on any.
-/

namespace TreeCheck

open Relation

variable {α π κ μ ε σ : Type}

/-- A checker: what it finds on a node, and where it goes from there. -/
structure Walk (α ε κ σ : Type) where
  own : α → Except ε (List κ)
  children : α → List (σ × α)

/-- A node is reached from another over children. -/
def Walk.Reaches (w : Walk α ε κ σ) : α → α → Prop :=
  ReflTransGen fun x y => ∃ step, (step, y) ∈ w.children x

/-- `f` walks the tree and reports on each node what it finds there. -/
structure Walk.RunBy (w : Walk α ε κ σ) (report : π → κ → μ) (extend : π → σ → π)
    (f : π → α → Except ε (List μ)) : Prop where
  eq : ∀ p x, f p x = do
    let own ← w.own x
    let rest ← (w.children x).mapM fun c => f (extend p c.1) c.2
    pure (own.map (report p) ++ rest.flatten)
  wellFounded : WellFounded fun y x => ∃ step, (step, y) ∈ w.children x

variable {w : Walk α ε κ σ} {report : π → κ → μ} {extend : π → σ → π}
  {f : π → α → Except ε (List μ)}

theorem Walk.RunBy.eq_ok (h : w.RunBy report extend f) {p : π} {x : α} {found : List μ} :
    f p x = .ok found ↔ ∃ own rest, w.own x = .ok own ∧
      (w.children x).mapM (fun c => f (extend p c.1) c.2) = .ok rest ∧
      found = own.map (report p) ++ rest.flatten := by
  rw [h.eq]
  constructor
  · intro hok
    obtain ⟨own, hown, hok⟩ := Checks.bind_eq_ok.mp hok
    obtain ⟨rest, hrest, hok⟩ := Checks.bind_eq_ok.mp hok
    cases hok
    exact ⟨own, rest, hown, hrest, rfl⟩
  · rintro ⟨own, rest, hown, hrest, rfl⟩
    exact Checks.bind_eq_ok.mpr ⟨own, hown, Checks.bind_eq_ok.mpr ⟨rest, hrest, rfl⟩⟩

/-- The checker returns when it fails on no node it reaches. -/
theorem Walk.RunBy.returns_iff (h : w.RunBy report extend f) (p : π) (x : α) :
    (∃ found, f p x = .ok found) ↔ ∀ y, w.Reaches x y → ∃ own, w.own y = .ok own := by
  constructor
  · rintro ⟨found, hfound⟩ y hy
    induction hy using ReflTransGen.head_induction_on generalizing p found with
    | refl =>
        obtain ⟨own, -, hown, -⟩ := h.eq_ok.mp hfound
        exact ⟨own, hown⟩
    | head hstep _ ih =>
        obtain ⟨step, hchild⟩ := hstep
        obtain ⟨-, rest, -, hrest, -⟩ := h.eq_ok.mp hfound
        obtain ⟨sub, -, hsub⟩ := Checks.mem_left_of_mapM hrest hchild
        exact ih _ sub hsub
  · intro hall
    induction x using h.wellFounded.induction generalizing p with
    | _ x ih =>
        obtain ⟨own, hown⟩ := hall x .refl
        obtain ⟨rest, hrest⟩ := Checks.mapM_exists (f := fun c => f (extend p c.1) c.2)
          (l := w.children x) (by
            intro c hc
            exact ih c.2 ⟨c.1, hc⟩ _ fun y hy => hall y (.head ⟨c.1, hc⟩ hy))
        exact ⟨_, h.eq_ok.mpr ⟨own, rest, hown, hrest, rfl⟩⟩

/-- It finds nothing when it finds nothing on any node it reaches. -/
theorem Walk.RunBy.nil_iff (h : w.RunBy report extend f) {p : π} {x : α} {found : List μ}
    (hfound : f p x = .ok found) : found = [] ↔ ∀ y, w.Reaches x y → w.own y = .ok [] := by
  induction x using h.wellFounded.induction generalizing p found with
  | _ x ih =>
      obtain ⟨own, rest, hown, hrest, rfl⟩ := h.eq_ok.mp hfound
      rw [List.append_eq_nil_iff, List.map_eq_nil_iff, List.flatten_eq_nil_iff]
      constructor
      · rintro ⟨rfl, hnil⟩ y hy
        rcases ReflTransGen.cases_head hy with rfl | ⟨z, ⟨step, hchild⟩, hz⟩
        · exact hown
        · obtain ⟨sub, hmem, hsub⟩ := Checks.mem_left_of_mapM hrest hchild
          exact (ih z ⟨step, hchild⟩ hsub).mp (hnil sub hmem) y hz
      · intro hall
        constructor
        · cases hown.symm.trans (hall x .refl)
          rfl
        · intro sub hmem
          obtain ⟨c, hc, hsub⟩ := Checks.mem_right_of_mapM hrest hmem
          exact (ih c.2 ⟨c.1, hc⟩ hsub).mpr fun y hy => hall y (.head ⟨c.1, hc⟩ hy)

end TreeCheck
