import Mathlib.Data.List.Forall2
import EmergentFlow.Lib.Dict

/-!
# Checks — validation loops in `Except`

A validator walks its data and raises at the first violation. In `Except`
such a loop is a `forM` whose body is a guard, and a chain of loops is a
bind. The lemmas here turn "the validator returned" into a plain
conjunction of facts, so that no proof about a validator unfolds a bind.
-/

universe u v

namespace Checks

variable {ε : Type u} {α : Type v} {β γ : Type}

/-- `if not ok: raise err`. -/
def guard (ok : Bool) (err : ε) : Except ε Unit :=
  if ok then .ok () else .error err

@[simp] theorem guard_eq_ok {ok : Bool} {err : ε} :
    guard ok err = .ok () ↔ ok = true := by
  cases ok <;> simp [guard]

/-- A lookup that raises `err` when there is nothing. -/
def require {α : Type v} (found : Option α) (err : ε) : Except ε α :=
  match found with
  | none => .error err
  | some a => .ok a

@[simp] theorem require_none {α : Type v} (err : ε) :
    require (none : Option α) err = .error err := rfl

@[simp] theorem require_some {α : Type v} (a : α) (err : ε) : require (some a) err = .ok a := rfl

@[simp] theorem require_eq_ok {α : Type v} {found : Option α} {err : ε} {a : α} :
    require found err = .ok a ↔ found = some a := by
  cases found <;> simp

/-- A bind returns exactly when both halves do. -/
theorem bind_eq_ok {x : Except ε β} {f : β → Except ε γ} {c : γ} :
    x >>= f = .ok c ↔ ∃ b, x = .ok b ∧ f b = .ok c := by
  cases x <;> simp [Bind.bind, Except.bind]

/-- A bind raises exactly when one of the halves does. -/
theorem bind_eq_error {x : Except ε β} {f : β → Except ε γ} {err : ε} :
    x >>= f = .error err ↔ x = .error err ∨ ∃ b, x = .ok b ∧ f b = .error err := by
  cases x <;> simp [Bind.bind, Except.bind]

/-- What is done with a result at the end does not matter to whether there is one. -/
theorem bind_pure_returns_iff {x : Except ε β} {f : β → γ} :
    (∃ c, (x >>= fun b => pure (f b)) = .ok c) ↔ ∃ b, x = .ok b := by
  constructor
  · rintro ⟨_, h⟩
    obtain ⟨b, hb, -⟩ := bind_eq_ok.mp h
    exact ⟨b, hb⟩
  · rintro ⟨b, rfl⟩
    exact ⟨f b, rfl⟩

theorem mapError_eq_ok {ε' : Type} {x : Except ε β} {f : ε → ε'} {b : β} :
    x.mapError f = .ok b ↔ x = .ok b := by
  cases x <;> simp [Except.mapError]

theorem mapError_eq_error {ε' : Type} {x : Except ε β} {f : ε → ε'} {err : ε'} :
    x.mapError f = .error err ↔ ∃ e, x = .error e ∧ f e = err := by
  cases x <;> simp [Except.mapError]

theorem map_eq_ok {α δ : Type v} {x : Except ε α} {f : α → δ} {d : δ} :
    x.map f = .ok d ↔ ∃ a, x = .ok a ∧ f a = d := by
  cases x <;> simp [Except.map]

/-- A check followed by the rest returns exactly when both do. -/
theorem then_eq_ok {x : Except ε Unit} {y : Unit → Except ε γ} {c : γ} :
    x >>= y = .ok c ↔ x = .ok () ∧ y () = .ok c := by
  rw [bind_eq_ok]
  exact ⟨fun ⟨⟨⟩, h⟩ => h, fun h => ⟨(), h⟩⟩

/-- A loop of checks returns exactly when every check does. -/
theorem forM_eq_ok {f : α → Except ε Unit} {l : List α} :
    l.forM f = .ok () ↔ ∀ x ∈ l, f x = .ok () := by
  induction l with
  | nil => simp [pure, Except.pure]
  | cons a l ih =>
      rw [show (a :: l).forM f = (f a >>= fun _ => l.forM f) from rfl, then_eq_ok]
      constructor
      · rintro ⟨h1, h2⟩ x hx
        rcases List.mem_cons.mp hx with rfl | hx
        · exact h1
        · exact ih.mp h2 x hx
      · intro h
        exact ⟨h a List.mem_cons_self,
          ih.mpr fun x hx => h x (List.mem_cons_of_mem _ hx)⟩

/-- A loop of checks that raises has a check that does. -/
theorem forM_eq_error {f : α → Except ε Unit} {l : List α} {err : ε}
    (h : l.forM f = .error err) : ∃ x ∈ l, f x = .error err := by
  induction l with
  | nil => cases h
  | cons a l ih =>
      rw [show (a :: l).forM f = (f a >>= fun _ => l.forM f) from rfl] at h
      rcases bind_eq_error.mp h with ha | ⟨⟨⟩, -, hrest⟩
      · exact ⟨a, List.mem_cons_self, ha⟩
      · obtain ⟨x, hx, hf⟩ := ih hrest
        exact ⟨x, List.mem_cons_of_mem _ hx, hf⟩

/-- A loop collecting results returns exactly the lists that match the
input item by item. -/
theorem mapM_eq_ok {f : β → Except ε γ} {l : List β} {r : List γ} :
    l.mapM f = .ok r ↔ List.Forall₂ (fun b c => f b = .ok c) l r := by
  induction l generalizing r with
  | nil =>
      rw [List.mapM_nil, List.forall₂_nil_left_iff]
      exact ⟨fun h => by cases h; rfl, fun h => by rw [h]; rfl⟩
  | cons b l ih =>
      rw [List.mapM_cons, bind_eq_ok]
      constructor
      · rintro ⟨c, hc, h⟩
        obtain ⟨cs, hcs, h⟩ := bind_eq_ok.mp h
        obtain rfl : c :: cs = r := by simpa [pure, Except.pure] using h
        exact .cons hc (ih.mp hcs)
      · rintro (_ | ⟨hc, hcs⟩)
        exact ⟨_, hc, bind_eq_ok.mpr ⟨_, ih.mpr hcs, rfl⟩⟩

/-- A loop that cannot fail collects the mapped list. -/
theorem mapM_eq_map {f : β → Except ε γ} {g : β → γ} {l : List β}
    (h : ∀ b ∈ l, f b = .ok (g b)) : l.mapM f = .ok (l.map g) := by
  refine mapM_eq_ok.mpr ?_
  rw [List.forall₂_map_right_iff, List.forall₂_same]
  exact h

/-- A loop each of whose rounds is a check and a map. -/
theorem mapM_iff {f : β → Except ε γ} {good : β → Prop} {h : β → γ}
    (hf : ∀ a b, f a = .ok b ↔ good a ∧ b = h a) {l : List β} {l' : List γ} :
    l.mapM f = .ok l' ↔ (∀ a ∈ l, good a) ∧ l' = l.map h := by
  induction l generalizing l' with
  | nil =>
      rw [List.mapM_nil]
      simp [pure, Except.pure, eq_comm]
  | cons a l ih =>
      rw [List.mapM_cons, bind_eq_ok]
      constructor
      · rintro ⟨b, hb, hrest⟩
        obtain ⟨bs, hbs, hpure⟩ := bind_eq_ok.mp hrest
        obtain ⟨hgood, rfl⟩ := (hf _ _).mp hb
        obtain ⟨hgoods, rfl⟩ := ih.mp hbs
        cases hpure
        exact ⟨List.forall_mem_cons.mpr ⟨hgood, hgoods⟩, rfl⟩
      · rintro ⟨hgoods, rfl⟩
        obtain ⟨hgood, hrest⟩ := List.forall_mem_cons.mp hgoods
        exact ⟨h a, (hf _ _).mpr ⟨hgood, rfl⟩,
          bind_eq_ok.mpr ⟨l.map h, ih.mpr ⟨hrest, rfl⟩, rfl⟩⟩

theorem mem_left_of_mapM {f : β → Except ε γ} {l : List β} {r : List γ}
    (h : l.mapM f = .ok r) {b : β} (hb : b ∈ l) : ∃ c ∈ r, f b = .ok c := by
  have hall := mapM_eq_ok.mp h
  clear h
  induction hall with
  | nil => simp at hb
  | cons hc _ ih =>
      rcases List.mem_cons.mp hb with rfl | hb
      · exact ⟨_, List.mem_cons_self, hc⟩
      · obtain ⟨c, hmem, hf⟩ := ih hb
        exact ⟨c, List.mem_cons_of_mem _ hmem, hf⟩

theorem mem_right_of_mapM {f : β → Except ε γ} {l : List β} {r : List γ}
    (h : l.mapM f = .ok r) {c : γ} (hc : c ∈ r) : ∃ b ∈ l, f b = .ok c := by
  have hall := mapM_eq_ok.mp h
  clear h
  induction hall with
  | nil => simp at hc
  | cons hb _ ih =>
      rcases List.mem_cons.mp hc with rfl | hc
      · exact ⟨_, List.mem_cons_self, hb⟩
      · obtain ⟨b, hmem, hf⟩ := ih hc
        exact ⟨b, List.mem_cons_of_mem _ hmem, hf⟩

/-- A loop over a list whose rounds know that their item is in it. -/
theorem mapM_attach (f : β → Except ε γ) (l : List β) :
    l.attach.mapM (fun b => f b.1) = l.mapM f := by
  have hval := List.mapM_map (f := Subtype.val) (g := f) (l := l.attach)
  rw [List.attach_map_subtype_val] at hval
  exact hval.symm

theorem mapM_exists {f : β → Except ε γ} {l : List β} (h : ∀ b ∈ l, ∃ c, f b = .ok c) :
    ∃ r, l.mapM f = .ok r := by
  induction l with
  | nil => exact ⟨[], rfl⟩
  | cons b l ih =>
      obtain ⟨c, hc⟩ := h b List.mem_cons_self
      obtain ⟨r, hr⟩ := ih fun b' hb' => h b' (List.mem_cons_of_mem _ hb')
      exact ⟨c :: r, mapM_eq_ok.mpr (.cons hc (mapM_eq_ok.mp hr))⟩

/-- A loop collecting results returns when each of its rounds does. -/
theorem mapM_exists_iff {f : β → Except ε γ} {l : List β} :
    (∃ r, l.mapM f = .ok r) ↔ ∀ b ∈ l, ∃ c, f b = .ok c := by
  constructor
  · rintro ⟨r, hr⟩ b hb
    obtain ⟨c, -, hc⟩ := mem_left_of_mapM hr hb
    exact ⟨c, hc⟩
  · exact mapM_exists

/-- A search none of whose rounds raises returns. -/
theorem findSomeM_exists {f : β → Except ε (Option γ)} {l : List β}
    (h : ∀ b ∈ l, ∃ c, f b = .ok c) : ∃ r, l.findSomeM? f = .ok r := by
  induction l with
  | nil => exact ⟨none, rfl⟩
  | cons b l ih =>
      obtain ⟨c, hc⟩ := h b List.mem_cons_self
      rw [List.findSomeM?, hc]
      cases c with
      | none => exact ih fun b' hb' => h b' (List.mem_cons_of_mem _ hb')
      | some c => exact ⟨some c, rfl⟩

/-- A loop none of whose rounds raises returns. -/
theorem foldlM_exists {δ : Type} {f : δ → α → Except ε δ} {l : List α}
    (h : ∀ d, ∀ a ∈ l, ∃ d', f d a = .ok d') (d : δ) : ∃ d', l.foldlM f d = .ok d' := by
  induction l generalizing d with
  | nil => exact ⟨d, rfl⟩
  | cons a l ih =>
      obtain ⟨d', hd'⟩ := h d a List.mem_cons_self
      obtain ⟨r, hr⟩ := ih (fun d b hb => h d b (List.mem_cons_of_mem _ hb)) d'
      refine ⟨r, ?_⟩
      rw [List.foldlM_cons, hd']
      exact hr

/-- A projection every result takes over from its input is taken over by
the whole list. -/
theorem map_eq_of_mapM {δ : Type} {f : β → Except ε γ} {g : γ → δ} {h : β → δ}
    (hf : ∀ b c, f b = .ok c → g c = h b) {l : List β} {r : List γ}
    (hl : l.mapM f = .ok r) : r.map g = l.map h := by
  have hall := mapM_eq_ok.mp hl
  clear hl
  induction hall with
  | nil => rfl
  | cons hc _ ih => rw [List.map_cons, List.map_cons, hf _ _ hc, ih]

/-! ## Computations without their results -/

/-- What is left when the result does not matter. -/
def void {α : Type v} (x : Except ε α) : Except ε Unit := x.map fun _ => ()

@[simp] theorem void_ok {α : Type v} (a : α) : void (.ok a : Except ε α) = .ok () := rfl

@[simp] theorem void_error {α : Type v} (err : ε) :
    void (.error err : Except ε α) = .error err := rfl

@[simp] theorem void_map {x : Except ε β} {f : β → γ} : void (x.map f) = void x := by
  cases x <;> rfl

@[simp] theorem void_eq_error {α : Type v} {x : Except ε α} {err : ε} :
    void x = .error err ↔ x = .error err := by
  cases x <;> simp [void, Except.map]

theorem void_eq_ok {α : Type v} {x : Except ε α} : void x = .ok () ↔ ∃ a, x = .ok a := by
  cases x <;> simp [void, Except.map]

theorem void_bind {x : Except ε β} {f : β → Except ε γ} {y : Except ε Unit}
    (h : ∀ b, x = .ok b → void (f b) = y) : void (x >>= f) = void x >>= fun _ => y := by
  cases x with
  | error err => rfl
  | ok b => exact h b rfl

/-- A collecting loop raises what the loop that does not collect raises. -/
theorem void_mapM (f : β → Except ε γ) (l : List β) :
    void (l.mapM f) = l.forM fun b => void (f b) := by
  induction l with
  | nil => rfl
  | cons b l ih =>
      rw [List.mapM_cons]
      refine void_bind fun c _ => ?_
      rw [← ih]
      cases l.mapM f <;> rfl

theorem forM_filterMap {f : γ → Except ε Unit} {g : β → Option γ} (l : List β) :
    (l.filterMap g).forM f = l.forM fun b => (g b).elim (.ok ()) f := by
  induction l with
  | nil => rfl
  | cons b l ih =>
      rw [List.filterMap_cons]
      cases hb : g b with
      | none =>
          simp only [ih]
          show _ = ((g b).elim (.ok ()) f >>= fun _ => _)
          rw [hb]
          rfl
      | some c =>
          show (f c >>= fun _ => _) = ((g b).elim (.ok ()) f >>= fun _ => _)
          rw [hb, ih]
          rfl

theorem forM_flatMap {f : γ → Except ε Unit} {g : β → List γ} (l : List β) :
    (l.flatMap g).forM f = l.forM fun b => (g b).forM f := by
  induction l with
  | nil => rfl
  | cons b l ih =>
      rw [List.flatMap_cons]
      show _ = ((g b).forM f >>= fun _ => l.forM fun b => (g b).forM f)
      rw [← ih]
      exact List.forM_append

/-! ## What a computation can raise -/

/-- Whatever the computation raises satisfies `P`. -/
def RaisesOnly {α : Type v} (P : ε → Prop) (x : Except ε α) : Prop := ∀ err, x = .error err → P err

section RaisesOnly

variable {P : ε → Prop}

theorem RaisesOnly.ok {α : Type v} {a : α} : RaisesOnly P (.ok a) := fun _ h => by cases h

theorem RaisesOnly.error {α : Type v} {err : ε} (h : P err) :
    RaisesOnly P (.error err : Except ε α) :=
  fun _ heq => by
    cases heq
    exact h

theorem RaisesOnly.guard {ok : Bool} {err : ε} (h : P err) : RaisesOnly P (guard ok err) := by
  cases ok
  · exact .error h
  · exact .ok

theorem RaisesOnly.require {α : Type v} {found : Option α} {err : ε} (h : P err) :
    RaisesOnly P (require found err) := by
  cases found with
  | none => exact .error h
  | some a => exact .ok

theorem RaisesOnly.bind {x : Except ε β} {f : β → Except ε γ} (hx : RaisesOnly P x)
    (hf : ∀ b, x = .ok b → RaisesOnly P (f b)) : RaisesOnly P (x >>= f) := by
  intro err h
  rcases bind_eq_error.mp h with h | ⟨b, hb, h⟩
  · exact hx err h
  · exact hf b hb err h

theorem RaisesOnly.mapError {ε' : Type} {Q : ε' → Prop} {x : Except ε β} {f : ε → ε'}
    (hx : RaisesOnly (fun err => Q (f err)) x) : RaisesOnly Q (x.mapError f) := by
  intro err h
  obtain ⟨e, he, rfl⟩ := mapError_eq_error.mp h
  exact hx e he

theorem RaisesOnly.forM {f : α → Except ε Unit} {l : List α} (h : ∀ a ∈ l, RaisesOnly P (f a)) :
    RaisesOnly P (l.forM f) := by
  intro err herr
  obtain ⟨a, ha, hf⟩ := forM_eq_error herr
  exact h a ha err hf

theorem RaisesOnly.foldlM {δ : Type} {f : δ → α → Except ε δ} {l : List α}
    (h : ∀ d, ∀ a ∈ l, RaisesOnly P (f d a)) (d : δ) : RaisesOnly P (l.foldlM f d) := by
  induction l generalizing d with
  | nil => exact .ok
  | cons a l ih =>
      rw [List.foldlM_cons]
      refine (h d a List.mem_cons_self).bind fun d' _ => ?_
      exact ih (fun d b hb => h d b (List.mem_cons_of_mem _ hb)) d'

theorem RaisesOnly.mapM {f : β → Except ε γ} {l : List β} (h : ∀ b ∈ l, RaisesOnly P (f b)) :
    RaisesOnly P (l.mapM f) := by
  induction l with
  | nil => exact .ok
  | cons b l ih =>
      rw [List.mapM_cons]
      refine (h b List.mem_cons_self).bind fun c _ => ?_
      exact (ih fun b' hb' => h b' (List.mem_cons_of_mem _ hb')).bind fun cs _ => .ok

end RaisesOnly

/-! ## Loops over a map -/

/-- A loop that writes every entry back under its key is a map over the
values. -/
theorem foldlM_set_eq_ok {κ : Type} [DecidableEq κ] {f : β → Except ε γ} {g : β → γ}
    {l : List (κ × β)} (hf : ∀ e ∈ l, f e.2 = .ok (g e.2)) {d : Dict κ γ}
    (hnodup : (l.map Prod.fst).Nodup) (hnew : ∀ k ∈ l.map Prod.fst, k ∉ d.keys) :
    ∃ d', l.foldlM (fun d e => do
      let b ← f e.2
      pure (d.set e.1 b)) d = .ok d' ∧ d'.entries = d.entries ++ l.map fun e => (e.1, g e.2) := by
  induction l generalizing d with
  | nil => exact ⟨d, rfl, by simp⟩
  | cons e l ih =>
      rw [List.map_cons, List.nodup_cons] at hnodup
      have hentries := Dict.entries_set_of_notMem d (g e.2) (hnew e.1 List.mem_cons_self)
      have hnew' : ∀ k ∈ l.map Prod.fst, k ∉ (d.set e.1 (g e.2)).keys := by
        intro k hk hmem
        rcases (Dict.mem_keys_set d (g e.2)).mp hmem with rfl | hmem
        · exact hnodup.1 hk
        · exact hnew k (List.mem_cons_of_mem _ hk) hmem
      obtain ⟨d', hd', hd'entries⟩ :=
        ih (fun e he => hf e (List.mem_cons_of_mem _ he)) hnodup.2 hnew'
      refine ⟨d', ?_, by rw [hd'entries, hentries]; simp⟩
      rw [List.foldlM_cons, hf e List.mem_cons_self]
      exact hd'

/-- A loop over the values of a map that writes each back under its key. -/
theorem foldlM_set_iff {κ : Type} [DecidableEq κ] {f : β → Except ε γ} {good : β → Prop}
    {h : β → γ}
    (hf : ∀ a b, f a = .ok b ↔ good a ∧ b = h a) {d : Dict κ β} {d' : Dict κ γ} :
    d.entries.foldlM (fun d e => do
      let b ← f e.2
      pure (d.set e.1 b)) Dict.empty = .ok d' ↔
      (∀ a ∈ d.values, good a) ∧ d' = d.mapValues fun _ => h := by
  by_cases hgood : ∀ a ∈ d.values, good a
  · have hall : ∀ e ∈ d.entries, f e.2 = .ok (h e.2) := fun e he =>
      (hf _ _).mpr ⟨hgood e.2 (List.mem_map_of_mem he), rfl⟩
    obtain ⟨nodes, hloop, hentries⟩ :=
      foldlM_set_eq_ok hall (d := Dict.empty) d.nodup (by simp [Dict.keys, Dict.empty])
    have heq : nodes = d.mapValues fun _ => h := Dict.ext_entries (by rw [hentries]; rfl)
    rw [hloop, heq, Except.ok.injEq]
    exact ⟨fun h => ⟨hgood, h.symm⟩, fun h => h.2.symm⟩
  · refine ⟨fun hloop => absurd ?_ hgood, fun h => absurd h.1 hgood⟩
    -- the loop raises at the first entry that is not good
    have hrounds : ∀ (l : List (κ × β)) (start : Dict κ γ),
        l.foldlM (fun d e => do
          let b ← f e.2
          pure (d.set e.1 b)) start = .ok d' → ∀ e ∈ l, good e.2 := by
      intro l
      induction l with
      | nil => simp
      | cons e l ih =>
          intro start hl
          rw [List.foldlM_cons] at hl
          obtain ⟨next, hnext, hrest⟩ := bind_eq_ok.mp hl
          obtain ⟨b, hb, -⟩ := bind_eq_ok.mp hnext
          exact List.forall_mem_cons.mpr ⟨((hf _ _).mp hb).1, ih next hrest⟩
    intro a ha
    obtain ⟨e, he, rfl⟩ := List.mem_map.mp ha
    exact hrounds _ _ hloop e he

end Checks
