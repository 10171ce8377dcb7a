import Mathlib.Data.List.Basic
import Mathlib.Logic.Relation
import EmergentFlow.Lib.Checks

/-!
# DepthFirst — the recursive walk with a visited set

A walk that reports an entry for every item it visits and an edge for
every link it follows, and visits nothing twice. Where some rank falls
along the links it ends, and has visited exactly what they lead to
(`walk_visits`).
-/

namespace DepthFirst

variable {α ν η ε : Type}

open Relation (ReflTransGen)

/-- What a visit reports: an entry, and the links to follow with their edges. -/
structure Visit (α ν η : Type) where
  entry : ν
  links : List (η × α) := []

/-- What the walk has done so far, in the order it did it. -/
structure State (α ν η : Type) where
  visited : List α := []
  entries : List ν := []
  edges : List η := []

def State.enter (st : State α ν η) (a : α) (entry : ν) : State α ν η :=
  { st with visited := st.visited ++ [a], entries := st.entries ++ [entry] }

def State.follow (st : State α ν η) (edge : η) : State α ν η :=
  { st with edges := st.edges ++ [edge] }

@[simp] theorem State.visited_enter (st : State α ν η) (a : α) (entry : ν) :
    (st.enter a entry).visited = st.visited ++ [a] := rfl

@[simp] theorem State.entries_enter (st : State α ν η) (a : α) (entry : ν) :
    (st.enter a entry).entries = st.entries ++ [entry] := rfl

@[simp] theorem State.visited_follow (st : State α ν η) (edge : η) :
    (st.follow edge).visited = st.visited := rfl

@[simp] theorem State.entries_follow (st : State α ν η) (edge : η) :
    (st.follow edge).entries = st.entries := rfl

/-- The walk from `a`; it fails with `too_deep` when it runs out of fuel. -/
def walk [DecidableEq α] (visit : α → Except ε (Visit α ν η)) (too_deep : ε) :
    Nat → α → State α ν η → Except ε (State α ν η)
  | 0, _, _ => .error too_deep
  | fuel + 1, a, st =>
      if a ∈ st.visited then .ok st
      else do
        let v ← visit a
        v.links.foldlM (fun st link => walk visit too_deep fuel link.2 (st.follow link.1))
          (st.enter a v.entry)

/-- Visiting `a` succeeds, and one of its links leads to `b`. -/
def Link (visit : α → Except ε (Visit α ν η)) (a b : α) : Prop :=
  ∃ v, visit a = .ok v ∧ b ∈ v.links.map Prod.snd

variable {visit : α → Except ε (Visit α ν η)} {key : ν → α} {ok : α → Prop} {rank : α → Nat}

/-- Where visits succeed, so they do at the other end of every link, and
the rank is smaller there. The entry of a visit is keyed by its item. -/
structure Ranked (visit : α → Except ε (Visit α ν η)) (key : ν → α) (ok : α → Prop)
    (rank : α → Nat) : Prop where
  visits : ∀ {a}, ok a → ∃ v, visit a = .ok v ∧ key v.entry = a
  link : ∀ {a b}, ok a → Link visit a b → ok b ∧ rank b < rank a

/-- From `st`, the walk has visited all that links from `sources` lead to,
and made one entry for each item it visited. -/
structure Walked (visit : α → Except ε (Visit α ν η)) (key : ν → α) (sources : List α)
    (st st' : State α ν η) : Prop where
  visited : ∀ b, b ∈ st'.visited ↔
    b ∈ st.visited ∨ ∃ a ∈ sources, ReflTransGen (Link visit) a b
  entries : st.entries.map key = st.visited → st'.entries.map key = st'.visited

/-- All that a visited item below `a` leads to has been visited. -/
def Closed (visit : α → Except ε (Visit α ν η)) (st : State α ν η) (a : α) : Prop :=
  ∀ b ∈ st.visited, ReflTransGen (Link visit) a b → ∀ c, ReflTransGen (Link visit) b c →
    c ∈ st.visited

theorem Ranked.reach (h : Ranked visit key ok rank) {a b : α} (ha : ok a)
    (hab : ReflTransGen (Link visit) a b) : ok b ∧ rank b ≤ rank a := by
  induction hab with
  | refl => exact ⟨ha, Nat.le_refl _⟩
  | tail _ hlink ih =>
      obtain ⟨hok, hrank⟩ := h.link ih.1 hlink
      exact ⟨hok, by omega⟩

theorem Walked.closed {sources : List α} {st st' : State α ν η} {a : α}
    (hw : Walked visit key sources st st') (h : Closed visit st a) : Closed visit st' a := by
  intro b hb hab c hbc
  rcases (hw.visited b).mp hb with hold | ⟨x, hx, hxb⟩
  · exact (hw.visited c).mpr (.inl (h b hold hab c hbc))
  · exact (hw.visited c).mpr (.inr ⟨x, hx, hxb.trans hbc⟩)

/-- `e` is an edge of a link that the visit of `b` follows. -/
def EdgeOf (visit : α → Except ε (Visit α ν η)) (b : α) (e : η) : Prop :=
  ∃ v, visit b = .ok v ∧ e ∈ v.links.map Prod.fst

/-- The walk has added the edges `new` and those of what it has visited since `st`. -/
structure Joined (visit : α → Except ε (Visit α ν η)) (new : List η) (st st' : State α ν η) :
    Prop where
  kept : ∀ b ∈ st.visited, b ∈ st'.visited
  edges : ∀ e, e ∈ st'.edges ↔ e ∈ st.edges ∨ e ∈ new ∨
    ∃ b ∈ st'.visited, b ∉ st.visited ∧ EdgeOf visit b e

theorem Joined.refl (st : State α ν η) : Joined visit [] st st :=
  ⟨fun _ hb => hb, fun e => by
    simp only [List.not_mem_nil, false_or]
    exact ⟨.inl, fun h => h.elim id fun ⟨_, hb, hnot, _⟩ => absurd hb hnot⟩⟩

theorem Joined.trans {new new' : List η} {st₁ st₂ st₃ : State α ν η}
    (h : Joined visit new st₁ st₂) (h' : Joined visit new' st₂ st₃) :
    Joined visit (new ++ new') st₁ st₃ := by
  refine ⟨fun b hb => h'.kept b (h.kept b hb), fun e => ?_⟩
  rw [h'.edges, h.edges, List.mem_append]
  constructor
  · rintro ((hold | hnew | ⟨b, hb, hnot, he⟩) | hnew | ⟨b, hb, hnot, he⟩)
    · exact .inl hold
    · exact .inr (.inl (.inl hnew))
    · exact .inr (.inr ⟨b, h'.kept b hb, hnot, he⟩)
    · exact .inr (.inl (.inr hnew))
    · exact .inr (.inr ⟨b, hb, fun hmem => hnot (h.kept b hmem), he⟩)
  · rintro (hold | (hnew | hnew) | ⟨b, hb, hnot, he⟩)
    · exact .inl (.inl hold)
    · exact .inl (.inr (.inl hnew))
    · exact .inr (.inl hnew)
    · by_cases hmid : b ∈ st₂.visited
      · exact .inl (.inr (.inr ⟨b, hmid, hnot, he⟩))
      · exact .inr (.inr ⟨b, hb, hmid, he⟩)

theorem joined_follow (st : State α ν η) (edge : η) :
    Joined visit [edge] st (st.follow edge) := by
  refine ⟨fun _ hb => hb, fun e => ?_⟩
  rw [State.follow, List.mem_append]
  refine or_congr Iff.rfl ⟨.inl, fun h => h.elim id ?_⟩
  exact fun ⟨_, hb, hnot, _⟩ => absurd hb hnot

variable [DecidableEq α] {too_deep : ε}

/-- The walk along a list of links, given what it does along each. -/
theorem foldlM_walked {fuel : Nat} {links : List (η × α)}
    (hwalk : ∀ link ∈ links, ∀ st : State α ν η, Closed visit st link.2 →
      ∃ st', walk visit too_deep fuel link.2 st = .ok st' ∧ Walked visit key [link.2] st st') :
    ∀ st : State α ν η, (∀ link ∈ links, Closed visit st link.2) →
      ∃ st', links.foldlM (fun st link => walk visit too_deep fuel link.2 (st.follow link.1)) st
          = .ok st' ∧ Walked visit key (links.map Prod.snd) st st' := by
  induction links with
  | nil =>
      intro st _
      exact ⟨st, rfl, by simp, id⟩
  | cons link links ih =>
      intro st hclosed
      obtain ⟨st₁, hrun₁, hwalked₁⟩ := hwalk link List.mem_cons_self (st.follow link.1)
        (hclosed link List.mem_cons_self)
      obtain ⟨st₂, hrun₂, hwalked₂⟩ := ih (fun l hl => hwalk l (List.mem_cons_of_mem _ hl)) st₁
        fun l hl => hwalked₁.closed (hclosed l (List.mem_cons_of_mem _ hl))
      refine ⟨st₂, ?_, ?_, fun h => hwalked₂.entries (hwalked₁.entries h)⟩
      · rw [List.foldlM_cons, hrun₁]
        exact hrun₂
      · intro b
        rw [hwalked₂.visited, hwalked₁.visited]
        simp [or_assoc]

/-- The walk from `a` visits exactly what links from `a` lead to, provided
that it has fuel for the rank of `a`. -/
theorem walk_walked (h : Ranked visit key ok rank) {fuel : Nat} {a : α} {st : State α ν η}
    (ha : ok a) (hfuel : rank a < fuel) (hclosed : Closed visit st a) :
    ∃ st', walk visit too_deep fuel a st = .ok st' ∧ Walked visit key [a] st st' := by
  induction fuel generalizing a st with
  | zero => omega
  | succ fuel ih =>
      by_cases hseen : a ∈ st.visited
      · refine ⟨st, by rw [walk, if_pos hseen], ?_, id⟩
        intro b
        simp only [List.mem_singleton, exists_eq_left]
        exact ⟨.inl, fun hb => hb.elim id (hclosed a hseen .refl b)⟩
      · obtain ⟨v, hv, hkey⟩ := h.visits ha
        have hlink : ∀ link ∈ v.links, Link visit a link.2 := fun link hmem =>
          ⟨v, hv, List.mem_map_of_mem hmem⟩
        -- no link leads back to `a`: its rank is larger
        have henter : ∀ link ∈ v.links, Closed visit (st.enter a v.entry) link.2 := by
          intro link hmem b hb hreach c hbc
          obtain ⟨hok, hrank⟩ := h.link ha (hlink link hmem)
          rcases List.mem_append.mp hb with hb | hb
          · exact List.mem_append_left _
              (hclosed b hb (.head (hlink link hmem) hreach) c hbc)
          · rw [List.mem_singleton] at hb
            subst hb
            have := (h.reach hok hreach).2
            omega
        obtain ⟨st', hrun, hwalked⟩ := foldlM_walked
          (fun link hmem st hst => by
            obtain ⟨hok, hrank⟩ := h.link ha (hlink link hmem)
            exact ih hok (by omega) hst) _ henter
        refine ⟨st', ?_, ?_, ?_⟩
        · rw [walk, if_neg hseen, hv]
          exact hrun
        · intro b
          rw [hwalked.visited, State.visited_enter, List.mem_append, List.mem_singleton, or_assoc]
          simp only [List.mem_singleton, exists_eq_left]
          apply or_congr Iff.rfl
          constructor
          · rintro (rfl | ⟨c, hc, hreach⟩)
            · exact .refl
            · exact .head ⟨v, hv, hc⟩ hreach
          · intro hreach
            rcases hreach.cases_head with rfl | ⟨c, ⟨v', hv', hc⟩, hreach⟩
            · exact .inl rfl
            · rw [hv, Except.ok.injEq] at hv'
              subst hv'
              exact .inr ⟨c, hc, hreach⟩
        · intro hentries
          apply hwalked.entries
          rw [State.entries_enter, State.visited_enter, List.map_append, hentries, List.map_singleton,
            hkey]

/-! ## Walks with cycles

Without a rank the walk still ends when the links stay in a finite list: each
call that does something visits one more item of it. -/

/-- What of the list a walk has not visited. -/
def State.unvisited (items : List α) (st : State α ν η) : List α :=
  items.filter (· ∉ st.visited)

theorem State.length_unvisited_lt {items : List α} {st st' : State α ν η} {a : α}
    (hkept : ∀ b ∈ st.visited, b ∈ st'.visited) (ha : a ∈ items) (hnew : a ∉ st.visited)
    (hseen : a ∈ st'.visited) :
    (st'.unvisited items).length < (st.unvisited items).length := by
  have hsub : (st'.unvisited items).Sublist (st.unvisited items) := by
    refine List.monotone_filter_right _ fun b hb => ?_
    simp only [decide_eq_true_eq] at hb ⊢
    exact fun hmem => hb (hkept b hmem)
  refine Nat.lt_of_le_of_ne hsub.length_le fun heq => ?_
  have hmem : a ∈ st'.unvisited items := by
    rw [hsub.eq_of_length heq]
    exact List.mem_filter.mpr ⟨ha, by simpa using hnew⟩
  have hnot := (List.mem_filter.mp hmem).2
  rw [decide_eq_true_eq] at hnot
  exact hnot hseen

/-- The walk along a list of links, given that it ends along each from any state
that has visited the items of `base`. -/
theorem foldlM_ends {fuel : Nat} {base : List α} {links : List (η × α)}
    (hwalk : ∀ link ∈ links, ∀ st : State α ν η, (∀ b ∈ base, b ∈ st.visited) →
      ∃ st', walk visit too_deep fuel link.2 st = .ok st' ∧ ∀ b ∈ st.visited, b ∈ st'.visited) :
    ∀ st : State α ν η, (∀ b ∈ base, b ∈ st.visited) →
      ∃ st', links.foldlM (fun st link => walk visit too_deep fuel link.2 (st.follow link.1)) st
          = .ok st' ∧ ∀ b ∈ st.visited, b ∈ st'.visited := by
  induction links with
  | nil => exact fun st _ => ⟨st, rfl, fun _ hb => hb⟩
  | cons link links ih =>
      intro st hbase
      obtain ⟨st₁, hrun₁, hkept₁⟩ := hwalk link List.mem_cons_self (st.follow link.1) hbase
      obtain ⟨st₂, hrun₂, hkept₂⟩ := ih (fun l hl => hwalk l (List.mem_cons_of_mem _ hl)) st₁
        fun b hb => hkept₁ b (hbase b hb)
      refine ⟨st₂, ?_, fun b hb => hkept₂ b (hkept₁ b hb)⟩
      rw [List.foldlM_cons, hrun₁]
      exact hrun₂

/-- The walk ends, with fuel for what is left of the list. -/
theorem walk_ends {items : List α} (hclosed : ∀ a ∈ items, ∃ v, visit a = .ok v ∧
      ∀ link ∈ v.links, link.2 ∈ items) {fuel : Nat} {a : α} {st : State α ν η}
    (ha : a ∈ items) (hfuel : (st.unvisited items).length < fuel) :
    ∃ st', walk visit too_deep fuel a st = .ok st' ∧ ∀ b ∈ st.visited, b ∈ st'.visited := by
  induction fuel generalizing a st with
  | zero => omega
  | succ fuel ih =>
      by_cases hseen : a ∈ st.visited
      · exact ⟨st, by rw [walk, if_pos hseen], fun _ hb => hb⟩
      · obtain ⟨v, hv, hlinks⟩ := hclosed a ha
        have henter : ∀ b ∈ st.visited, b ∈ (st.enter a v.entry).visited := fun b hb =>
          List.mem_append_left _ hb
        have hwalk : ∀ link ∈ v.links, ∀ st₁ : State α ν η,
            (∀ b ∈ (st.enter a v.entry).visited, b ∈ st₁.visited) →
            ∃ st', walk visit too_deep fuel link.2 st₁ = .ok st' ∧
              ∀ b ∈ st₁.visited, b ∈ st'.visited := by
          intro link hlink st₁ hbase
          have hless : (st₁.unvisited items).length < (st.unvisited items).length :=
            State.length_unvisited_lt (fun b hb => hbase b (henter b hb)) ha hseen
              (hbase a (List.mem_append_right _ List.mem_cons_self))
          exact ih (hlinks link hlink) (by omega)
        obtain ⟨st', hrun, hkept⟩ := foldlM_ends hwalk (st.enter a v.entry) fun _ hb => hb
        refine ⟨st', ?_, fun b hb => hkept b (henter b hb)⟩
        rw [walk, if_neg hseen, hv]
        exact hrun

/-- From nothing visited, the entries are those of what links lead to. -/
theorem mem_entries_walk (h : Ranked visit key ok rank) {fuel : Nat} {a : α} (ha : ok a)
    (hfuel : rank a < fuel) :
    ∃ st', walk visit too_deep fuel a {} = .ok st' ∧
      ∀ b, (∃ entry ∈ st'.entries, key entry = b) ↔ ReflTransGen (Link visit) a b := by
  have hclosed : Closed visit ({} : State α ν η) a := fun b hb => absurd hb List.not_mem_nil
  obtain ⟨st', hrun, hwalked⟩ := walk_walked h ha hfuel hclosed
  refine ⟨st', hrun, fun b => ?_⟩
  rw [← List.mem_map, hwalked.entries rfl, hwalked.visited]
  simp

/-! ## The edges of a walk -/

theorem foldlM_joined {fuel : Nat} {links : List (η × α)}
    (hwalk : ∀ a (st st' : State α ν η), walk visit too_deep fuel a st = .ok st' →
      Joined visit [] st st') {st st' : State α ν η}
    (h : links.foldlM (fun st link => walk visit too_deep fuel link.2 (st.follow link.1)) st
      = .ok st') : Joined visit (links.map Prod.fst) st st' := by
  induction links generalizing st with
  | nil =>
      cases h
      exact .refl _
  | cons link links ih =>
      rw [List.foldlM_cons] at h
      obtain ⟨st₁, hrun, h⟩ := Checks.bind_eq_ok.mp h
      exact ((joined_follow st link.1).trans (hwalk _ _ _ hrun)).trans (ih h)

/-- The walk has the edges of what it has visited. -/
theorem walk_joined {fuel : Nat} {a : α} {st st' : State α ν η}
    (h : walk visit too_deep fuel a st = .ok st') : Joined visit [] st st' := by
  induction fuel generalizing a st st' with
  | zero => cases h
  | succ fuel ih =>
      rw [walk] at h
      split at h
      · cases h
        exact .refl _
      · rename_i hnew
        obtain ⟨v, hv, h⟩ := Checks.bind_eq_ok.mp h
        have hlinks := foldlM_joined (fun _ _ _ => ih) h
        have hhere : a ∈ st'.visited :=
          hlinks.kept a (List.mem_append_right _ (List.mem_singleton_self a))
        have hedge : ∀ e, EdgeOf visit a e ↔ e ∈ v.links.map Prod.fst := by
          simp [EdgeOf, hv]
        refine ⟨fun b hb => hlinks.kept b (List.mem_append_left _ hb), fun e => ?_⟩
        rw [hlinks.edges, ← hedge]
        refine or_congr Iff.rfl ?_
        simp only [State.visited_enter, List.mem_append, List.mem_singleton, not_or,
          List.not_mem_nil, false_or]
        constructor
        · rintro (he | ⟨b, hb, hnot, he⟩)
          · exact ⟨a, hhere, hnew, he⟩
          · exact ⟨b, hb, hnot.1, he⟩
        · rintro ⟨b, hb, hnot, he⟩
          by_cases hba : b = a
          · exact .inl (hba ▸ he)
          · exact .inr ⟨b, hb, ⟨hnot, hba⟩, he⟩

/-- From nothing visited, the edges are those of what links lead to. -/
theorem mem_edges_walk (h : Ranked visit key ok rank) {fuel : Nat} {a : α} {st' : State α ν η}
    (ha : ok a) (hfuel : rank a < fuel) (hrun : walk visit too_deep fuel a {} = .ok st') (e : η) :
    e ∈ st'.edges ↔ ∃ b, ReflTransGen (Link visit) a b ∧ EdgeOf visit b e := by
  have hclosed : Closed visit ({} : State α ν η) a := fun b hb => absurd hb List.not_mem_nil
  obtain ⟨st'', hrun', hwalked⟩ := walk_walked h ha hfuel hclosed
  rw [hrun, Except.ok.injEq] at hrun'
  subst hrun'
  have hvisited := hwalked.visited
  simp only [List.not_mem_nil, false_or, List.mem_singleton, exists_eq_left] at hvisited
  rw [(walk_joined hrun).edges]
  simp [hvisited]

end DepthFirst
