import Mathlib.Data.Set.Basic
import Mathlib.Order.Interval.Set.Defs

/-!
# Cells — programs on a heap

A heap is the list of its cells, an address a place in the list. A program may
allocate, read and write cells, and raise; what it wrote before it raised stays.

A heap `Extends` another when no cell of that one has changed. A program that writes to
cells of its own only extends the heap it starts from, although it does not extend
every heap it passes through.
-/

namespace Cells

variable {ε C α β : Type}

abbrev Heap (C : Type) : Type := List C

def Prog (ε C α : Type) : Type := Heap C → Except ε α × Heap C

namespace Prog

def bind (p : Prog ε C α) (f : α → Prog ε C β) : Prog ε C β := fun h =>
  match p h with
  | (.ok a, h') => f a h'
  | (.error e, h') => (.error e, h')

instance : Monad (Prog ε C) where
  pure a := fun h => (.ok a, h)
  bind := bind

def fail (e : ε) : Prog ε C α := fun h => (.error e, h)

def alloc (c : C) : Prog ε C Nat := fun h => (.ok h.length, h ++ [c])

def read [Inhabited C] (a : Nat) : Prog ε C C := fun h => (.ok (h[a]?.getD default), h)

def modify (a : Nat) (f : C → C) : Prog ε C Unit := fun h => (.ok (), h.modify a f)

theorem pure_run (a : α) (h : Heap C) : (pure a : Prog ε C α) h = (.ok a, h) := rfl

theorem bind_ok {p : Prog ε C α} {f : α → Prog ε C β} {h h' : Heap C} {a : α}
    (hp : p h = (.ok a, h')) : (p >>= f) h = f a h' := by
  show bind p f h = f a h'
  rw [bind, hp]

theorem bind_error {p : Prog ε C α} {f : α → Prog ε C β} {h h' : Heap C} {e : ε}
    (hp : p h = (.error e, h')) : (p >>= f) h = (.error e, h') := by
  show bind p f h = (.error e, h')
  rw [bind, hp]

theorem read_run [Inhabited C] {a : Nat} {h : Heap C} {c : C} (hc : h[a]? = some c) :
    (read a : Prog ε C C) h = (.ok c, h) := by
  rw [read, hc, Option.getD_some]

end Prog

/-! ## Heaps that grow -/

structure Extends (h h' : Heap C) : Prop where
  length : h.length ≤ h'.length
  cells : ∀ (a : Nat) (c : C), h[a]? = some c → h'[a]? = some c

theorem Extends.refl (h : Heap C) : Extends h h := ⟨Nat.le_refl _, fun _ _ => id⟩

theorem Extends.trans {h₁ h₂ h₃ : Heap C} (h12 : Extends h₁ h₂) (h23 : Extends h₂ h₃) :
    Extends h₁ h₃ :=
  ⟨Nat.le_trans h12.length h23.length, fun a c hc => h23.cells a c (h12.cells a c hc)⟩

theorem Extends.alloc (h : Heap C) (c : C) : Extends h (h ++ [c]) where
  length := by simp
  cells a c' hc := by
    have ha := (List.getElem?_eq_some_iff.mp hc).1
    rw [List.getElem?_append_left ha, hc]

/-- Writing to a cell that is newer than a heap. -/
theorem Extends.modify {h h' : Heap C} (hext : Extends h h') {a : Nat} (ha : h.length ≤ a)
    (f : C → C) : Extends h (h'.modify a f) where
  length := by
    rw [List.length_modify]
    exact hext.length
  cells b c hc := by
    have hb := (List.getElem?_eq_some_iff.mp hc).1
    have hne : a ≠ b := by omega
    rw [List.getElem?_modify, hext.cells b c hc]
    simp [hne]

theorem getElem?_alloc (h : Heap C) (c : C) : (h ++ [c])[h.length]? = some c := by
  simp

theorem getElem?_modify_self {h : Heap C} {a : Nat} {c : C} (hc : h[a]? = some c) (f : C → C) :
    (h.modify a f)[a]? = some (f c) := by
  rw [List.getElem?_modify, hc]
  simp

/-- The addresses of a heap that another had not yet. -/
def newer (h h' : Heap C) : Set Nat := Set.Ico h.length h'.length

end Cells
