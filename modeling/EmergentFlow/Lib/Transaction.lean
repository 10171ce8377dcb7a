import Mathlib.Logic.Basic

/-!
# Transaction — stateful code that may raise

A method that reads and writes a shared state and may raise half-way.
Raising does not undo the writes made before it, so "a failed call leaves
the state alone" is a property of the order in which a method checks and
writes. `Atomic` states it; the rules below derive it for a method that
makes its checks first (`Reads`) and then only writes (`Total`).
-/

/-- A computation over a state `σ` that returns or raises. The state after
a raise is whatever had been written by then. -/
def Transaction (σ ε α : Type) : Type := σ → Except ε α × σ

namespace Transaction

variable {σ ε α β : Type}

instance : Monad (Transaction σ ε) where
  pure a := fun s => (.ok a, s)
  bind x f := fun s =>
    match x s with
    | (.ok a, s') => f a s'
    | (.error e, s') => (.error e, s')

/-- `raise e`. -/
def raise (e : ε) : Transaction σ ε α := fun s => (.error e, s)

/-- `try: x; except: handle`. What `x` wrote before it raised stays. -/
def tryCatch (x : Transaction σ ε α) (handle : ε → Transaction σ ε α) : Transaction σ ε α :=
  fun s =>
    match x s with
    | (.ok a, s') => (.ok a, s')
    | (.error e, s') => handle e s'

instance : MonadExcept ε (Transaction σ ε) where
  throw := raise
  tryCatch := tryCatch

/-- The current state. -/
def read : Transaction σ ε σ := fun s => (.ok s, s)

/-- One write. -/
def write (f : σ → σ) : Transaction σ ε Unit := fun s => (.ok (), f s)

/-- A computation on values only. -/
def lift (r : Except ε α) : Transaction σ ε α := fun s => (r, s)

/-- `if not ok: raise e`. -/
def check (ok : Bool) (e : ε) : Transaction σ ε Unit := fun s =>
  if ok then (.ok (), s) else (.error e, s)

/-! ## Running -/

@[simp] theorem pure_apply (a : α) (s : σ) :
    (pure a : Transaction σ ε α) s = (.ok a, s) := rfl

@[simp] theorem raise_apply (e : ε) (s : σ) :
    (raise e : Transaction σ ε α) s = (.error e, s) := rfl

@[simp] theorem read_apply (s : σ) : (read : Transaction σ ε σ) s = (.ok s, s) := rfl

@[simp] theorem write_apply (f : σ → σ) (s : σ) :
    (write f : Transaction σ ε Unit) s = (.ok (), f s) := rfl

@[simp] theorem lift_apply (r : Except ε α) (s : σ) :
    (lift r : Transaction σ ε α) s = (r, s) := rfl

@[simp] theorem map_apply_snd (f : α → β) (x : Transaction σ ε α) (s : σ) :
    ((f <$> x) s).2 = (x s).2 := by
  show (match x s with
    | (.ok a, s') => ((.ok (f a) : Except ε β), s')
    | (.error e, s') => (.error e, s')).2 = (x s).2
  rcases x s with ⟨_ | a, t⟩ <;> rfl

/-- Computations with the same answers up to `f` leave the same state. -/
theorem snd_eq_of_map_eq {f : α → β} {x y : Transaction σ ε α} (h : f <$> x = f <$> y) (s : σ) :
    (x s).2 = (y s).2 := by
  rw [← map_apply_snd f x s, h, map_apply_snd]

instance : LawfulMonad (Transaction σ ε) := LawfulMonad.mk' _
  (by
    intro α x
    funext s
    show (match x s with
      | (.ok a, s') => (.ok a, s')
      | (.error e, s') => (.error e, s')) = x s
    rcases x s with ⟨_ | a, t⟩ <;> rfl)
  (by intros; rfl)
  (by
    intro α β γ x f g
    funext s
    show (match (match x s with
        | (.ok a, s') => f a s'
        | (.error e, s') => (.error e, s')) with
      | (.ok b, s') => g b s'
      | (.error e, s') => (.error e, s')) = _
    show _ = (match x s with
      | (.ok a, s') => (f a >>= g) s'
      | (.error e, s') => (.error e, s'))
    rcases x s with ⟨_ | a, t⟩ <;> rfl)

theorem write_eq_ok {f : σ → σ} {s s' : σ} {u : Unit} :
    (write f : Transaction σ ε Unit) s = (.ok u, s') ↔ s' = f s := by
  simp [eq_comm]

theorem lift_eq_ok {r : Except ε α} {s s' : σ} {a : α} :
    (lift r : Transaction σ ε α) s = (.ok a, s') ↔ r = .ok a ∧ s' = s := by
  simp [eq_comm]

theorem check_eq_ok {ok : Bool} {e : ε} {s s' : σ} {u : Unit} :
    (check ok e : Transaction σ ε Unit) s = (.ok u, s') ↔ ok = true ∧ s' = s := by
  cases ok <;> simp [check, eq_comm]

/-- A sequence returns exactly when both parts do. -/
theorem bind_eq_ok {x : Transaction σ ε α} {f : α → Transaction σ ε β} {s s' : σ} {b : β} :
    (x >>= f) s = (.ok b, s') ↔ ∃ a t, x s = (.ok a, t) ∧ f a t = (.ok b, s') := by
  show (match x s with
    | (.ok a, s') => f a s'
    | (.error e, s') => (.error e, s')) = (.ok b, s') ↔ _
  rcases hx : x s with ⟨_ | a, t⟩
  · simp
  · simp only [Prod.mk.injEq, Except.ok.injEq]
    exact ⟨fun h => ⟨a, t, ⟨rfl, rfl⟩, h⟩, fun ⟨_, _, ⟨rfl, rfl⟩, h⟩ => h⟩

/-- Behind a part that returns, the sequence is its rest. -/
theorem bind_of_ok {x : Transaction σ ε α} {f : α → Transaction σ ε β} {s t : σ} {a : α}
    (h : x s = (.ok a, t)) : (x >>= f) s = f a t := by
  show (match x s with
    | (.ok a, s') => f a s'
    | (.error e, s') => (.error e, s')) = f a t
  rw [h]

theorem lift_ok_bind (a : α) (f : α → Transaction σ ε β) : (lift (.ok a) >>= f) = f a := rfl

theorem lift_error_bind (e : ε) (f : α → Transaction σ ε β) : (lift (.error e) >>= f) = raise e :=
  rfl

theorem write_bind_apply (g : σ → σ) (f : Unit → Transaction σ ε β) (s : σ) :
    (write g >>= f) s = f () (g s) := rfl

/-- A sequence raises when its first part does, or its second after it. -/
theorem bind_eq_error {x : Transaction σ ε α} {f : α → Transaction σ ε β} {s s' : σ} {e : ε} :
    (x >>= f) s = (.error e, s') ↔
      x s = (.error e, s') ∨ ∃ a t, x s = (.ok a, t) ∧ f a t = (.error e, s') := by
  show (match x s with
    | (.ok a, s') => f a s'
    | (.error e, s') => (.error e, s')) = (.error e, s') ↔ _
  rcases hx : x s with ⟨_ | a, t⟩
  · simp
  · simp only [Prod.mk.injEq, reduceCtorEq, false_and, false_or, Except.ok.injEq]
    exact ⟨fun h => ⟨a, t, ⟨rfl, rfl⟩, h⟩, fun ⟨_, _, ⟨rfl, rfl⟩, h⟩ => h⟩

/-! ## Atomicity -/

/-- The computation never writes. -/
def Reads (x : Transaction σ ε α) : Prop := ∀ s, (x s).2 = s

/-- The computation never raises. -/
def Total (x : Transaction σ ε α) : Prop := ∀ s, ∃ a, (x s).1 = .ok a

/-- A raise leaves the state as it was. -/
def Atomic (x : Transaction σ ε α) : Prop := ∀ s e s', x s = (.error e, s') → s' = s

theorem Reads.pure (a : α) : Reads (pure a : Transaction σ ε α) := fun _ => rfl

theorem Reads.raise (e : ε) : Reads (raise e : Transaction σ ε α) := fun _ => rfl

theorem Reads.read : Reads (read : Transaction σ ε σ) := fun _ => rfl

theorem Reads.lift (r : Except ε α) : Reads (lift r : Transaction σ ε α) := fun _ => rfl

theorem Reads.check (ok : Bool) (e : ε) : Reads (check ok e : Transaction σ ε Unit) := by
  intro s
  cases ok <;> rfl

theorem Reads.bind {x : Transaction σ ε α} {f : α → Transaction σ ε β} (hx : Reads x)
    (hf : ∀ a, Reads (f a)) : Reads (x >>= f) := by
  intro s
  have hs := hx s
  rcases h : x s with ⟨r, t⟩
  rw [h] at hs
  cases r with
  | error e =>
      rw [bind_eq_error.mpr (.inl h)]
      exact hs
  | ok a =>
      rw [bind_of_ok h, hf a t]
      exact hs

theorem Total.pure (a : α) : Total (pure a : Transaction σ ε α) := fun _ => ⟨a, rfl⟩

theorem Total.write (f : σ → σ) : Total (write f : Transaction σ ε Unit) := fun _ => ⟨(), rfl⟩

theorem Total.lift (a : α) : Total (lift (.ok a) : Transaction σ ε α) := fun _ => ⟨a, rfl⟩

theorem Total.bind {x : Transaction σ ε α} {f : α → Transaction σ ε β} (hx : Total x)
    (hf : ∀ a, Total (f a)) : Total (x >>= f) := by
  intro s
  obtain ⟨a, ha⟩ := hx s
  have h : x s = (.ok a, (x s).2) := by rw [← ha]
  obtain ⟨b, hb⟩ := hf a (x s).2
  exact ⟨b, by rw [bind_of_ok h, hb]⟩

theorem Reads.atomic {x : Transaction σ ε α} (hx : Reads x) : Atomic x := by
  intro s e s' h
  have hs := hx s
  rw [h] at hs
  exact hs

theorem Total.atomic {x : Transaction σ ε α} (hx : Total x) : Atomic x := by
  intro s e s' h
  obtain ⟨a, ha⟩ := hx s
  rw [h] at ha
  cases ha

/-- Checks before an atomic rest keep it atomic. -/
theorem Reads.bind_atomic {x : Transaction σ ε α} {f : α → Transaction σ ε β} (hx : Reads x)
    (hf : ∀ a, Atomic (f a)) : Atomic (x >>= f) := by
  intro s e s' h
  rcases bind_eq_error.mp h with hraise | ⟨a, t, ha, hrest⟩
  · exact hx.atomic s e s' hraise
  · have ht : t = s := by
      have := hx s
      rwa [ha] at this
    rw [hf a t e s' hrest, ht]

end Transaction
