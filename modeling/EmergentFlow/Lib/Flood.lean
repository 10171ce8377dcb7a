import Mathlib.Data.Finset.Card
import Mathlib.Logic.Relation

/-!
# Flood — marking on push

The worklist loop that marks an element when it is pushed, so that nothing
is pushed twice. The successors stay within a finite set, and the elements
of it that are not marked yet bound the pushes to come: the loop ends.
What it marks is exactly what a path from the seeds leads to
(`mem_flood_iff`).
-/

namespace Flood

variable {α : Type} [DecidableEq α]

/-- Successors within a finite set. -/
structure Neighbours (α : Type) where
  succ : α → List α
  all : Finset α
  covers : ∀ a, ∀ b ∈ succ a, b ∈ all

def Neighbours.Step (n : Neighbours α) (a b : α) : Prop := b ∈ n.succ a

/-- What is marked, and what of it has not been expanded. -/
structure State (α : Type) where
  worklist : List α
  seen : Finset α

def push (st : State α) (a : α) : State α :=
  if a ∈ st.seen then st else { worklist := a :: st.worklist, seen := insert a st.seen }

def pushAll (st : State α) (l : List α) : State α := l.foldl push st

/-- What can still be pushed and what can still be popped. -/
def State.size (st : State α) (all : Finset α) : Nat :=
  (all \ st.seen).card + st.worklist.length

/-- A push moves its element from the one to the other. -/
theorem size_push (st : State α) {all : Finset α} {a : α} (ha : a ∈ all) :
    (push st a).size all = st.size all := by
  rw [push]
  split
  · rfl
  · rename_i hfresh
    have hmem : a ∈ all \ st.seen := Finset.mem_sdiff.mpr ⟨ha, hfresh⟩
    have hpos : 0 < (all \ st.seen).card := Finset.card_pos.mpr ⟨a, hmem⟩
    simp only [State.size, List.length_cons, Finset.sdiff_insert, Finset.card_erase_of_mem hmem]
    omega

theorem size_pushAll {all : Finset α} {l : List α} (hl : ∀ a ∈ l, a ∈ all) (st : State α) :
    (pushAll st l).size all = st.size all := by
  induction l generalizing st with
  | nil => rfl
  | cons a l ih =>
      have hrest := ih (fun b hb => hl b (List.mem_cons_of_mem _ hb)) (push st a)
      rw [size_push st (hl a List.mem_cons_self)] at hrest
      exact hrest

/-- The loop. -/
def flood (n : Neighbours α) (st : State α) : Finset α :=
  match _hlist : st.worklist with
  | [] => st.seen
  | current :: rest => flood n (pushAll ⟨rest, st.seen⟩ (n.succ current))
termination_by st.size n.all
decreasing_by
  rw [size_pushAll (n.covers current)]
  simp only [State.size, _hlist, List.length_cons]
  omega

/-! ## Pushing -/

theorem mem_seen_push {st : State α} {a b : α} : b ∈ (push st a).seen ↔ b = a ∨ b ∈ st.seen := by
  rw [push]
  split
  · rename_i hseen
    exact ⟨.inr, fun h => h.elim (fun heq => heq ▸ hseen) id⟩
  · exact Finset.mem_insert

theorem mem_seen_pushAll {st : State α} {l : List α} {b : α} :
    b ∈ (pushAll st l).seen ↔ b ∈ l ∨ b ∈ st.seen := by
  induction l generalizing st with
  | nil => simp [pushAll]
  | cons a l ih =>
      have hrest : b ∈ (pushAll (push st a) l).seen ↔ _ := ih
      rw [mem_seen_push] at hrest
      rw [List.mem_cons]
      exact hrest.trans (by tauto)

/-- What is pushed was not marked. -/
theorem mem_worklist_push {st : State α} {a b : α} :
    b ∈ (push st a).worklist ↔ b ∈ st.worklist ∨ (b = a ∧ a ∉ st.seen) := by
  rw [push]
  split
  · rename_i hseen
    exact ⟨.inl, fun h => h.elim id fun h => absurd hseen h.2⟩
  · rename_i hfresh
    rw [List.mem_cons]
    exact ⟨fun h => h.symm.imp_right fun heq => ⟨heq, hfresh⟩, fun h => (h.imp_right And.left).symm⟩

theorem mem_worklist_pushAll {st : State α} {l : List α} {b : α} :
    b ∈ (pushAll st l).worklist ↔ b ∈ st.worklist ∨ (b ∈ l ∧ b ∉ st.seen) := by
  induction l generalizing st with
  | nil => simp [pushAll]
  | cons a l ih =>
      have hrest : b ∈ (pushAll (push st a) l).worklist ↔ _ := ih
      rw [mem_worklist_push, mem_seen_push] at hrest
      rw [List.mem_cons]
      refine hrest.trans ?_
      constructor
      · rintro ((h | ⟨rfl, h⟩) | ⟨hl, hne⟩)
        · exact .inl h
        · exact .inr ⟨.inl rfl, h⟩
        · exact .inr ⟨.inr hl, fun hs => hne (.inr hs)⟩
      · rintro (h | ⟨rfl | hl, hne⟩)
        · exact .inl (.inl h)
        · exact .inl (.inr ⟨rfl, hne⟩)
        · by_cases heq : b = a
          · exact .inl (.inr ⟨heq, heq ▸ hne⟩)
          · exact .inr ⟨hl, fun h => h.elim heq hne⟩

/-! ## The loop -/

/-- What is marked waits for its expansion or has been expanded. -/
structure State.Expanding (st : State α) (n : Neighbours α) : Prop where
  marked : ∀ a ∈ st.worklist, a ∈ st.seen
  expanded : ∀ a ∈ st.seen, a ∈ st.worklist ∨ ∀ b ∈ n.succ a, b ∈ st.seen

theorem State.Expanding.expand {n : Neighbours α} {st : State α} {current : α} {rest : List α}
    (h : st.Expanding n) (hlist : st.worklist = current :: rest) :
    (pushAll ⟨rest, st.seen⟩ (n.succ current)).Expanding n where
  marked a ha := by
    rw [mem_worklist_pushAll] at ha
    rw [mem_seen_pushAll]
    rcases ha with ha | ha
    · exact .inr (h.marked a (hlist ▸ List.mem_cons_of_mem _ ha))
    · exact .inl ha.1
  expanded a ha := by
    rw [mem_seen_pushAll] at ha
    by_cases hseen : a ∈ st.seen
    · rcases h.expanded a hseen with hwait | hdone
      · rw [hlist, List.mem_cons] at hwait
        rcases hwait with rfl | hwait
        · exact .inr fun b hb => mem_seen_pushAll.mpr (.inl hb)
        · exact .inl (mem_worklist_pushAll.mpr (.inl hwait))
      · exact .inr fun b hb => mem_seen_pushAll.mpr (.inr (hdone b hb))
    · exact .inl (mem_worklist_pushAll.mpr (.inr ⟨ha.resolve_right hseen, hseen⟩))

/-- The loop keeps what is marked and closes it under steps. -/
theorem flood_complete (n : Neighbours α) (st : State α) (h : st.Expanding n) :
    st.seen ⊆ flood n st ∧ ∀ a ∈ flood n st, ∀ b ∈ n.succ a, b ∈ flood n st := by
  fun_induction flood n st with
  | case1 st hlist =>
      refine ⟨fun _ h => h, fun a ha => ?_⟩
      exact (h.expanded a ha).resolve_left (hlist ▸ List.not_mem_nil)
  | case2 st current rest hlist ih =>
      obtain ⟨hkept, hclosed⟩ := ih (h.expand hlist)
      exact ⟨fun a ha => hkept (mem_seen_pushAll.mpr (.inr ha)), hclosed⟩

/-- What the loop marks was marked, or a path from something marked leads to it. -/
theorem flood_sound (n : Neighbours α) (st : State α) (h : ∀ a ∈ st.worklist, a ∈ st.seen) {b : α}
    (hb : b ∈ flood n st) : ∃ a ∈ st.seen, Relation.ReflTransGen n.Step a b := by
  fun_induction flood n st with
  | case1 st hlist => exact ⟨b, hb, .refl⟩
  | case2 st current rest hlist ih =>
      have hcurrent : current ∈ st.seen := h current (hlist ▸ List.mem_cons_self)
      have hmarked : ∀ a ∈ (pushAll ⟨rest, st.seen⟩ (n.succ current)).worklist,
          a ∈ (pushAll ⟨rest, st.seen⟩ (n.succ current)).seen := by
        intro a ha
        rw [mem_worklist_pushAll] at ha
        rw [mem_seen_pushAll]
        exact ha.symm.imp And.left fun ha => h a (hlist ▸ List.mem_cons_of_mem _ ha)
      obtain ⟨a, ha, hpath⟩ := ih hmarked hb
      rcases mem_seen_pushAll.mp ha with hstep | hseen
      · exact ⟨current, hcurrent, .head hstep hpath⟩
      · exact ⟨a, hseen, hpath⟩

/-- Exactly what a path from the seeds leads to. -/
theorem mem_flood_iff (n : Neighbours α) (seeds : List α) {b : α} :
    b ∈ flood n (pushAll ⟨[], ∅⟩ seeds) ↔ ∃ a ∈ seeds, Relation.ReflTransGen n.Step a b := by
  have hseen : ∀ a, a ∈ (pushAll ⟨[], ∅⟩ seeds).seen ↔ a ∈ seeds := fun a => by
    rw [mem_seen_pushAll]
    simp
  have hlist : ∀ a, a ∈ (pushAll ⟨[], ∅⟩ seeds).worklist ↔ a ∈ seeds := fun a => by
    rw [mem_worklist_pushAll]
    simp
  have hmarked : ∀ a ∈ (pushAll ⟨[], ∅⟩ seeds).worklist, a ∈ (pushAll ⟨[], ∅⟩ seeds).seen :=
    fun a ha => (hseen a).mpr ((hlist a).mp ha)
  constructor
  · intro hb
    obtain ⟨a, ha, hpath⟩ := flood_sound n _ hmarked hb
    exact ⟨a, (hseen a).mp ha, hpath⟩
  · rintro ⟨a, ha, hpath⟩
    have hstart : (pushAll ⟨[], ∅⟩ seeds).Expanding n :=
      ⟨hmarked, fun a ha => .inl ((hlist a).mpr ((hseen a).mp ha))⟩
    obtain ⟨hkept, hclosed⟩ := flood_complete n _ hstart
    induction hpath with
    | refl => exact hkept ((hseen a).mpr ha)
    | tail _ hstep ih => exact hclosed _ ih _ hstep

end Flood
