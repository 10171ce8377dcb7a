import Mathlib.Data.List.Sort
import Mathlib.Data.List.Nodup

/-!
# RankSort — sorting by the number of predecessors

A list sorted by how many of its elements lie below each, ties broken by a key.
When the elements form a chain, this puts them into the order of the chain.
-/

namespace RankSort

variable {α β : Type*} [LinearOrder β]

/-- How many elements of the list lie below `a`. -/
def rank (below : α → α → Bool) (l : List α) (a : α) : Nat := l.countP (below · a)

/-- The lexicographic order of rank and key. -/
def le (below : α → α → Bool) (key : α → β) (l : List α) (a b : α) : Prop :=
  rank below l a < rank below l b ∨ (rank below l a = rank below l b ∧ key a ≤ key b)

variable {below : α → α → Bool} {key : α → β} {l chain : List α}

instance : DecidableRel (le below key l) :=
  fun _ _ => inferInstanceAs (Decidable (_ ∨ _))

instance : Std.Total (le below key l) := ⟨fun a b => by
  rcases Nat.lt_trichotomy (rank below l a) (rank below l b) with h | h | h
  · exact .inl (.inl h)
  · rcases le_total (key a) (key b) with hk | hk
    · exact .inl (.inr ⟨h, hk⟩)
    · exact .inr (.inr ⟨h.symm, hk⟩)
  · exact .inr (.inl h)⟩

instance : IsTrans α (le below key l) := ⟨fun a b c hab hbc => by
  rcases hab with hab | ⟨hab, hkab⟩ <;> rcases hbc with hbc | ⟨hbc, hkbc⟩
  · exact .inl (hab.trans hbc)
  · exact .inl (hbc ▸ hab)
  · exact .inl (hab ▸ hbc)
  · exact .inr ⟨hab.trans hbc, hkab.trans hkbc⟩⟩

def sort (below : α → α → Bool) (key : α → β) (l : List α) : List α :=
  l.insertionSort (le below key l)

/-- Each element lies below those after it, not above them, and not below
itself. -/
structure Chain (below : α → α → Bool) (chain : List α) : Prop where
  ordered : chain.Pairwise fun a b => below a b = true ∧ below b a = false
  irrefl : ∀ a ∈ chain, below a a = false

/-- The rank of an element of a chain is its place. -/
theorem Chain.rank_eq {pre post : List α} {a : α} (h : Chain below (pre ++ a :: post)) :
    rank below (pre ++ a :: post) a = pre.length := by
  obtain ⟨-, hpost, hpre⟩ := List.pairwise_append.mp h.ordered
  have hbefore : pre.countP (below · a) = pre.length :=
    List.countP_eq_length.mpr fun x hx => (hpre x hx a List.mem_cons_self).1
  have hafter : post.countP (below · a) = 0 := by
    rw [List.countP_eq_zero]
    intro x hx
    simp [((List.pairwise_cons.mp hpost).1 x hx).2]
  have hself : below a a = false := h.irrefl a (List.mem_append_right _ List.mem_cons_self)
  rw [rank, List.countP_append, List.countP_cons, hbefore, hafter, hself]
  simp

theorem Chain.ranks (h : Chain below chain) :
    chain.map (rank below chain) = List.range chain.length := by
  apply List.ext_getElem (by simp)
  intro i hi _
  rw [List.length_map] at hi
  have hsplit : chain = chain.take i ++ chain[i] :: chain.drop (i + 1) := by
    rw [List.getElem_cons_drop, List.take_append_drop]
  have hrank := Chain.rank_eq (hsplit ▸ h)
  rw [← hsplit, List.length_take, min_eq_left hi.le] at hrank
  rw [List.getElem_map, List.getElem_range, hrank]

/-- Sorting the elements of a chain gives the chain. -/
theorem Chain.sort_eq (h : Chain below chain) (hperm : l.Perm chain) :
    sort below key l = chain := by
  have hrank : ∀ a, rank below l a = rank below chain a := fun a => hperm.countP_eq _
  have hnodup : (chain.map (rank below chain)).Nodup := by
    rw [h.ranks]
    exact List.nodup_range
  have hsorted : chain.Pairwise (le below key l) := by
    have hlt : (chain.map (rank below chain)).Pairwise (· < ·) := by
      rw [h.ranks]
      exact List.pairwise_lt_range
    refine (List.pairwise_map.mp hlt).imp fun {a b} hab => .inl ?_
    rwa [hrank, hrank]
  have hsort := (List.perm_insertionSort (le below key l) l).trans hperm
  refine hsort.eq_of_pairwise ?_ (List.pairwise_insertionSort _ l) hsorted
  intro a b ha hb hab hba
  have hsame : rank below chain a = rank below chain b := by
    rw [← hrank, ← hrank]
    rcases hab with hab | hab <;> rcases hba with hba | hba <;> omega
  exact List.inj_on_of_nodup_map hnodup (hsort.mem_iff.mp ha) hb hsame

end RankSort
