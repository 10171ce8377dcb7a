import Mathlib.Data.Finset.Insert
import Mathlib.Order.Defs.LinearOrder
import EmergentFlow.Lib.Runs

/-!
# Greedy — taking the nearest free place in turn

Each of some agents takes, when its turn comes, the first place on its own list that
nobody has taken, unless that one is out of reach. When every list goes from near to
far, the place taken is a nearest free one, and an agent left without a place has no
free place within reach, then and at the end (`fair_run`).
-/

namespace Greedy

variable {α β : Type} [DecidableEq β]

/-- The first free place, if it is within reach. -/
def pick (taken : Finset β) (inReach : β → Bool) : List β → Option β
  | [] => none
  | b :: places =>
      if b ∈ taken then pick taken inReach places
      else if inReach b then some b
      else none

structure State (α β : Type) where
  taken : Finset β := ∅
  pairs : List (α × β) := []

def turn (places : α → List β) (inReach : α → β → Bool) (st : State α β) (a : α) : State α β :=
  match pick st.taken (inReach a) (places a) with
  | none => st
  | some b => { taken := insert b st.taken, pairs := st.pairs ++ [(a, b)] }

def run (places : α → List β) (inReach : α → β → Bool) (turns : List α) : State α β :=
  turns.foldl (turn places inReach) {}

/-- Lists that go from near to far, and a reach that is a bound on how far. -/
structure Nearest {κ : Type} [LinearOrder κ] (places : α → List β) (inReach : α → β → Bool)
    (far : α → β → κ) : Prop where
  sorted : ∀ a, (places a).Pairwise (far a · ≤ far a ·)
  nearer : ∀ a b b', far a b ≤ far a b' → inReach a b' = true → inReach a b = true

section

variable {κ : Type} [LinearOrder κ] {places : α → List β} {inReach : α → β → Bool}
  {far : α → β → κ}

/-! ## One turn -/

theorem pick_some {taken : Finset β} {reach : β → Bool} {dist : β → κ} {l : List β} {b : β}
    (hsorted : l.Pairwise (dist · ≤ dist ·)) (h : pick taken reach l = some b) :
    b ∈ l ∧ b ∉ taken ∧ reach b = true ∧ ∀ b' ∈ l, b' ∉ taken → dist b ≤ dist b' := by
  induction l with
  | nil => cases h
  | cons c l ih =>
      rw [List.pairwise_cons] at hsorted
      rw [pick] at h
      by_cases htaken : c ∈ taken
      · rw [if_pos htaken] at h
        obtain ⟨hmem, hfree, hreach, hleast⟩ := ih hsorted.2 h
        refine ⟨List.mem_cons_of_mem _ hmem, hfree, hreach, fun b' hb' hfree' => ?_⟩
        rcases List.mem_cons.mp hb' with rfl | hb'
        · exact absurd htaken hfree'
        · exact hleast b' hb' hfree'
      · rw [if_neg htaken] at h
        split at h
        · next hreach =>
            cases h
            refine ⟨List.mem_cons_self, htaken, hreach, fun b' hb' _ => ?_⟩
            rcases List.mem_cons.mp hb' with rfl | hb'
            · exact le_rfl
            · exact hsorted.1 b' hb'
        · cases h

theorem pick_none {taken : Finset β} {reach : β → Bool} {dist : β → κ} {l : List β}
    (hsorted : l.Pairwise (dist · ≤ dist ·))
    (hnearer : ∀ b b', dist b ≤ dist b' → reach b' = true → reach b = true)
    (h : pick taken reach l = none) : ∀ b ∈ l, b ∉ taken → reach b = false := by
  induction l with
  | nil => exact fun _ hb => absurd hb List.not_mem_nil
  | cons c l ih =>
      intro b hb hfree
      rw [List.pairwise_cons] at hsorted
      rw [pick] at h
      by_cases htaken : c ∈ taken
      · rw [if_pos htaken] at h
        rcases List.mem_cons.mp hb with rfl | hb
        · exact absurd htaken hfree
        · exact ih hsorted.2 h b hb hfree
      · rw [if_neg htaken] at h
        split at h
        · cases h
        · next hreach =>
            rcases List.mem_cons.mp hb with rfl | hb
            · exact Bool.eq_false_iff.mpr hreach
            · exact Bool.eq_false_iff.mpr fun hb' => hreach (hnearer c b (hsorted.1 b hb) hb')

/-! ## All turns -/

/-- What is owed to the agents whose turn has been. -/
structure Fair (places : α → List β) (inReach : α → β → Bool) (far : α → β → κ)
    (turns : List α) (st : State α β) : Prop where
  taken : ∀ b, b ∈ st.taken ↔ b ∈ st.pairs.map Prod.snd
  agents : (st.pairs.map Prod.fst).Sublist turns
  once : (st.pairs.map Prod.snd).Nodup
  allowed : ∀ p ∈ st.pairs, p.2 ∈ places p.1 ∧ inReach p.1 p.2 = true
  nearest : ∀ pre p post, st.pairs = pre ++ p :: post → ∀ b ∈ places p.1,
    b ∉ pre.map Prod.snd → far p.1 p.2 ≤ far p.1 b
  unmatched : ∀ a ∈ turns, a ∉ st.pairs.map Prod.fst → ∀ b ∈ places a, b ∉ st.taken →
    inReach a b = false

theorem Fair.turn (hnear : Nearest places inReach far) {turns : List α} {st : State α β}
    (h : Fair places inReach far turns st) (a : α) :
    Fair places inReach far (turns ++ [a]) (turn places inReach st a) := by
  rw [Greedy.turn]
  cases hpick : pick st.taken (inReach a) (places a) with
  | none =>
      have hnone := pick_none (hnear.sorted a) (hnear.nearer a) hpick
      refine { h with agents := h.agents.trans (List.sublist_append_left _ _), unmatched := ?_ }
      intro a' ha' hout
      rcases List.mem_append.mp ha' with ha' | ha'
      · exact h.unmatched a' ha' hout
      · rw [List.mem_singleton.mp ha']
        exact hnone
  | some b =>
      obtain ⟨hmem, hfree, hreach, hleast⟩ := pick_some (hnear.sorted a) hpick
      have hnew : b ∉ st.pairs.map Prod.snd := fun hb => hfree ((h.taken b).mpr hb)
      refine ⟨?_, ?_, ?_, ?_, ?_, ?_⟩
      · intro b'
        rw [Finset.mem_insert, h.taken, List.map_append, List.mem_append, or_comm]
        simp
      · rw [List.map_append]
        exact h.agents.append (List.Sublist.refl _)
      · rw [List.map_append]
        exact List.nodup_append'.mpr ⟨h.once, List.nodup_singleton _, by simpa using hnew⟩
      · intro p hp
        rcases List.mem_append.mp hp with hp | hp
        · exact h.allowed p hp
        · rw [List.mem_singleton.mp hp]
          exact ⟨hmem, hreach⟩
      · -- the last pair is nearest by the pick, the others as they were
        intro pre p post hsplit b' hb' hbefore
        rcases Runs.concat_eq_split.mp hsplit with ⟨-, hpairs, rfl⟩ | ⟨post', -, hpairs⟩
        · rw [← hpairs, ← h.taken] at hbefore
          exact hleast b' hb' hbefore
        · exact h.nearest pre p post' hpairs b' hb' hbefore
      · -- fewer places are free, so nothing new comes into reach
        intro a' ha' hout b' hb' hfree'
        rw [List.map_append, List.mem_append, not_or] at hout
        rw [Finset.mem_insert, not_or] at hfree'
        rcases List.mem_append.mp ha' with ha' | ha'
        · exact h.unmatched a' ha' hout.1 b' hb' hfree'.2
        · exact absurd ha' hout.2

theorem fair_run (hnear : Nearest places inReach far) (turns : List α) :
    Fair places inReach far turns (run places inReach turns) := by
  induction turns using List.reverseRecOn with
  | nil =>
      refine ⟨fun b => by simp [run], List.Sublist.refl _, List.nodup_nil, ?_, ?_, ?_⟩
      · exact fun p hp => absurd hp List.not_mem_nil
      · exact fun pre p post hsplit => absurd hsplit (by simp [run])
      · exact fun a ha => absurd ha List.not_mem_nil
  | append_singleton turns a ih =>
      rw [run, List.foldl_append]
      exact ih.turn hnear a

end

end Greedy
