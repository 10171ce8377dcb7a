import EmergentFlow.Lib.Transaction

/-!
# LossyStore — stores that may forget

A key/value store whose entries can disappear: a read may refresh
bookkeeping, a write may fail or push other entries out, but what can be
read under a key is what was last written under it. `view` is what can be
read; the laws say that reads keep it and that a write adds at most its
own entry. A store with an eviction policy is one, and so is no store.
-/

/-- A store under keys `κ` of values `α`, written with a note `ν`. -/
structure LossyStore (κ α ν : Type) where
  State : Type
  get : State → κ → Option α × State
  put : State → κ → α → ν → State
  /-- What a read of each key answers. -/
  view : State → κ → Option α
  get_eq : ∀ s k, (get s k).1 = view s k
  view_get : ∀ s k, view (get s k).2 = view s
  view_put_same : ∀ s k a n b, view (put s k a n) k = some b → b = a
  view_put_ne : ∀ s k a n k' b, k' ≠ k → view (put s k a n) k' = some b → view s k' = some b

namespace LossyStore

variable {κ α ν : Type}

/-- No store at all: nothing is kept. -/
def null (κ α ν : Type) : LossyStore κ α ν where
  State := Unit
  get s _ := (none, s)
  put s _ _ _ := s
  view _ _ := none
  get_eq _ _ := rfl
  view_get _ _ := rfl
  view_put_same _ _ _ _ _ h := by cases h
  view_put_ne _ _ _ _ _ _ _ h := by cases h

variable (S : LossyStore κ α ν)

/-- A property of entries that every write establishes survives a write. -/
theorem forall_view_put {P : κ → α → Prop} {s : S.State} {k : κ} {a : α} {n : ν}
    (h : ∀ k' b, S.view s k' = some b → P k' b) (ha : P k a) :
    ∀ k' b, S.view (S.put s k a n) k' = some b → P k' b := by
  classical
  intro k' b hb
  by_cases hk : k' = k
  · subst hk
    rw [S.view_put_same s k' a n b hb]
    exact ha
  · exact h k' b (S.view_put_ne s k a n k' b hk hb)

/-! ## Computations that only read

Such a computation may refresh bookkeeping, but its answer is a function
of what can be read, and it leaves that unchanged. -/

/-- Some reads lead from the one state to the other. -/
inductive Reads (s : S.State) : S.State → Prop
  | refl : Reads s s
  | get {t : S.State} (k : κ) (before : Reads s t) : Reads s (S.get t k).2

variable {S} in
theorem Reads.view {s t : S.State} (h : S.Reads s t) : S.view t = S.view s := by
  induction h with
  | refl => rfl
  | get k before ih => exact (S.view_get _ k).trans ih

variable {S} in
theorem Reads.trans {s t u : S.State} (h : S.Reads s t) (h' : S.Reads t u) : S.Reads s u := by
  induction h' with
  | refl => exact h
  | get k before ih => exact .get k ih

variable {ε β γ : Type}

/-- `store.get(k)`. -/
def fetch (k : κ) : Transaction S.State ε (Option α) := fun s => (.ok (S.get s k).1, (S.get s k).2)

/-- `x` answers `r` of what can be read, and only reads. -/
def Answers (x : Transaction S.State ε β) (r : (κ → Option α) → Except ε β) : Prop :=
  ∀ s, (x s).1 = r (S.view s) ∧ S.Reads s (x s).2

variable {S}

theorem Answers.pure (b : β) : S.Answers (pure b : Transaction S.State ε β) fun _ => .ok b :=
  fun _ => ⟨rfl, .refl⟩

theorem Answers.raise (e : ε) :
    S.Answers (Transaction.raise e : Transaction S.State ε β) fun _ => .error e :=
  fun _ => ⟨rfl, .refl⟩

theorem Answers.lift (x : Except ε β) : S.Answers (Transaction.lift x) fun _ => x :=
  fun _ => ⟨rfl, .refl⟩

theorem Answers.fetch (k : κ) :
    S.Answers (S.fetch k : Transaction S.State ε (Option α)) fun view => .ok (view k) :=
  fun s => ⟨by rw [LossyStore.fetch, S.get_eq], .get k .refl⟩

theorem Answers.bind {x : Transaction S.State ε β} {f : β → Transaction S.State ε γ}
    {r : (κ → Option α) → Except ε β} {q : β → (κ → Option α) → Except ε γ}
    (hx : S.Answers x r) (hf : ∀ b, S.Answers (f b) (q b)) :
    S.Answers (x >>= f) fun view => r view >>= fun b => q b view := by
  intro s
  show _ = (r (S.view s) >>= fun b => q b (S.view s)) ∧ _
  obtain ⟨hr, hreads⟩ := hx s
  rcases hxs : x s with ⟨_ | b, t⟩
  · rw [hxs] at hr hreads
    rw [Transaction.bind_eq_error.mpr (.inl hxs)]
    exact ⟨by rw [← hr]; rfl, hreads⟩
  · rw [hxs] at hr hreads
    rw [Transaction.bind_of_ok hxs]
    obtain ⟨hq, hreads'⟩ := hf b t
    exact ⟨by rw [hq, ← hr, show S.view t = S.view s from hreads.view]; rfl, hreads.trans hreads'⟩

end LossyStore
