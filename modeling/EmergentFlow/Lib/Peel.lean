import Mathlib.Data.List.Perm.Subperm

/-!
# Peel — dropping what is low until nothing is

A row of a table may be low in it, and stays low when other rows are dropped. Dropping
low rows until none is left ends, in whatever portions they are dropped, at the one greatest
part of the table in which no row is low (`loop_greatest`, `Greatest.eq_loop`).
-/

namespace Peel

variable {α : Type} {low : List α → α → Bool}

/-- What is low in a table is low in every part of it. -/
def Hereditary (low : List α → α → Bool) : Prop :=
  ∀ {part table : List α}, part.Subperm table → ∀ a, low table a = true → low part a = true

def Stable (low : List α → α → Bool) (table : List α) : Prop := ∀ a ∈ table, low table a = false

instance (table : List α) : Decidable (Stable low table) :=
  inferInstanceAs (Decidable (∀ a ∈ table, low table a = false))

/-- A portion: rows are dropped, none of which a part without low rows has. -/
structure Portion (low : List α → α → Bool) (drop : List α → List α) : Prop where
  sublist : ∀ table, (drop table).Sublist table
  keeps : ∀ table part, part.Sublist table → Stable low part → part.Sublist (drop table)

/-- A portion that is not empty as long as a row is low. -/
structure Round (low : List α → α → Bool) (round : List α → List α) : Prop
    extends Portion low round where
  shrinks : ∀ table, ¬ Stable low table → (round table).length < table.length

def loop {round : List α → List α} (h : Round low round) (table : List α) : List α :=
  if _hstable : Stable low table then table else loop h (round table)
termination_by table.length
decreasing_by exact h.shrinks table _hstable

/-- The greatest part of the table in which no row is low, in the order of the table. -/
structure Greatest (low : List α → α → Bool) (table kept : List α) : Prop where
  sublist : kept.Sublist table
  stable : Stable low kept
  greatest : ∀ part, part.Subperm table → Stable low part → part.Subperm kept

theorem Stable.perm (hlow : Hereditary low) {part part' : List α} (h : Stable low part)
    (hperm : part'.Perm part) : Stable low part' := by
  intro a ha
  by_contra hbad
  have hbad' := hlow hperm.symm.subperm a (Bool.not_eq_false _ ▸ hbad)
  rw [h a (hperm.mem_iff.mp ha)] at hbad'
  cases hbad'

theorem loop_spec {round : List α → List α} (h : Round low round) (table : List α) :
    (loop h table).Sublist table ∧ Stable low (loop h table) ∧
      ∀ part, part.Sublist table → Stable low part → part.Sublist (loop h table) := by
  fun_induction loop h table with
  | case1 table hstable => exact ⟨List.Sublist.refl _, hstable, fun part hpart _ => hpart⟩
  | case2 table _ ih =>
      obtain ⟨hsublist, hstable, hgreatest⟩ := ih
      exact ⟨hsublist.trans (h.sublist table), hstable,
        fun part hpart hpart' => hgreatest part (h.keeps table part hpart hpart') hpart'⟩

theorem loop_greatest (hlow : Hereditary low) {round : List α → List α} (h : Round low round)
    (table : List α) : Greatest low table (loop h table) := by
  obtain ⟨hsublist, hstable, hgreatest⟩ := loop_spec h table
  refine ⟨hsublist, hstable, fun part hpart hpart' => ?_⟩
  obtain ⟨part', hperm, hsub⟩ := hpart
  exact ⟨part', hperm, hgreatest part' hsub (hpart'.perm hlow hperm)⟩

theorem Greatest.perm {table table' kept kept' : List α} (h : Greatest low table kept)
    (h' : Greatest low table' kept') (hperm : table'.Perm table) : kept'.Perm kept := by
  refine (h.greatest kept' (h'.sublist.subperm.trans hperm.subperm) h'.stable).antisymm ?_
  exact h'.greatest kept (h.sublist.subperm.trans hperm.symm.subperm) h.stable

/-- Every loop ends at the greatest part, in whatever portions it drops. -/
theorem Greatest.eq_loop {table kept : List α} (hkept : Greatest low table kept)
    {round : List α → List α} (h : Round low round) : loop h table = kept := by
  obtain ⟨hsublist, hstable, hgreatest⟩ := loop_spec h table
  have hsub := hgreatest kept hkept.sublist hkept.stable
  have hle := (hkept.greatest _ hsublist.subperm hstable).length_le
  exact (hsub.eq_of_length_le hle).symm

/-! ## Portions -/

/-- A filter that drops low rows only. -/
theorem Portion.filter (hlow : Hereditary low) {p : List α → α → Bool}
    (honly : ∀ table, ∀ a ∈ table, p table a = false → low table a = true) :
    Portion low fun table => table.filter (p table) where
  sublist _ := List.filter_sublist
  keeps table part hpart hstable := by
    have hkeep : part.filter (p table) = part := by
      rw [List.filter_eq_self]
      intro a ha
      by_contra hdropped
      have hbad := honly table a (hpart.subset ha) (Bool.eq_false_iff.mpr hdropped)
      have hbad' := hlow hpart.subperm a hbad
      rw [hstable a ha] at hbad'
      cases hbad'
    rw [← hkeep]
    exact hpart.filter _

/-- Two portions, one after the other. -/
theorem Portion.comp {drop drop' : List α → List α} (h : Portion low drop)
    (h' : Portion low drop') : Portion low fun table => drop' (drop table) where
  sublist table := (h'.sublist (drop table)).trans (h.sublist table)
  keeps table part hpart hstable :=
    h'.keeps (drop table) part (h.keeps table part hpart hstable) hstable

/-- A portion is a round when it changes every table with a low row. -/
theorem Portion.round {drop : List α → List α} (h : Portion low drop)
    (hchanges : ∀ table, ¬ Stable low table → drop table ≠ table) : Round low drop where
  toPortion := h
  shrinks table hstable := by
    refine Nat.lt_of_le_of_ne (h.sublist table).length_le fun hlength => ?_
    exact hchanges table hstable ((h.sublist table).eq_of_length hlength)

end Peel
