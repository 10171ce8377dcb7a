import EmergentFlow.Lib.Checks

/-!
# Agreement — two computations that raise the same errors

Two readers of one document often share their checks but not their work:
each can also fail in a way of its own. `Agrees` compares two computations
in `Except` on the errors that both could raise. It composes along binds
and loops, so two long computations agree when their steps do.
-/

universe u v w

namespace Agreement

variable {S : Type u} {εa εb : Type v} {α α' β β' γ : Type}

/-- The two return related results, or raise one and the same shared
error, or one of them fails in a way of its own. `ka` and `kb` give the
shared error behind an error; `none` is an error of its own. -/
def Agrees (ka : εa → Option S) (kb : εb → Option S) (R : α → β → Prop) :
    Except εa α → Except εb β → Prop
  | .ok a, .ok b => R a b
  | .ok _, .error e => kb e = none
  | .error e, .ok _ => ka e = none
  | .error e, .error e' => ka e = none ∨ kb e' = none ∨ ka e = kb e'

variable {ka : εa → Option S} {kb : εb → Option S} {R : α → β → Prop} {Q : α' → β' → Prop}
  {x : Except εa α} {y : Except εb β}

/-! ## Building -/

/-- The same computation, made first by both. -/
theorem Agrees.bind_same {z : Except γ α} {fa : γ → εa} {fb : γ → εb}
    {f : α → Except εa α'} {g : α → Except εb β'} (hkind : ∀ e, ka (fa e) = kb (fb e))
    (h : ∀ a, z = .ok a → Agrees ka kb Q (f a) (g a)) :
    Agrees ka kb Q (z.mapError fa >>= f) (z.mapError fb >>= g) := by
  cases z with
  | error e => exact .inr (.inr (hkind e))
  | ok a => exact h a rfl

/-- The same condition, checked by both. -/
theorem Agrees.guard {ok : Bool} {ea : εa} {eb : εb} (hkind : ka ea = kb eb) :
    Agrees ka kb (fun _ _ => True) (Checks.guard ok ea) (Checks.guard ok eb) := by
  cases ok
  · exact .inr (.inr hkind)
  · trivial

/-- Two sides that can only fail in ways of their own. -/
theorem Agrees.own (hx : Checks.RaisesOnly (ka · = none) x)
    (hy : Checks.RaisesOnly (kb · = none) y) : Agrees ka kb (fun _ _ => True) x y := by
  cases x with
  | ok a =>
      cases y with
      | ok b => trivial
      | error e => exact hy e rfl
  | error e =>
      cases y with
      | ok b => exact hx e rfl
      | error e' => exact .inl (hx e rfl)

/-- A left side that can only fail in a way of its own. -/
theorem Agrees.own_left {f : α → Except εa α'} {z : Except εb β'}
    (hown : Checks.RaisesOnly (ka · = none) x)
    (h : ∀ a, x = .ok a → Agrees ka kb Q (f a) z) : Agrees ka kb Q (x >>= f) z := by
  cases x with
  | error e =>
      have he := hown e rfl
      cases z with
      | error e' => exact .inl he
      | ok b => exact he
  | ok a => exact h a rfl

/-- A right side that can only fail in a way of its own. -/
theorem Agrees.own_right {z : Except εa α'} {g : β → Except εb β'}
    (hown : Checks.RaisesOnly (kb · = none) y)
    (h : ∀ b, y = .ok b → Agrees ka kb Q z (g b)) : Agrees ka kb Q z (y >>= g) := by
  cases y with
  | error e =>
      have he := hown e rfl
      cases z with
      | error e' => exact .inr (.inl he)
      | ok a => exact he
  | ok b => exact h b rfl

/-- One computation after another. -/
theorem Agrees.bind {f : α → Except εa α'} {g : β → Except εb β'} (hxy : Agrees ka kb R x y)
    (hfg : ∀ a b, x = .ok a → y = .ok b → R a b → Agrees ka kb Q (f a) (g b)) :
    Agrees ka kb Q (x >>= f) (y >>= g) := by
  cases x with
  | ok a =>
      cases y with
      | ok b => exact hfg a b rfl rfl hxy
      | error e =>
          -- the right side failed on its own: nothing is asked of the left
          change Agrees ka kb Q (f a) (.error e)
          cases f a with
          | ok a' => exact hxy
          | error e' => exact .inr (.inl hxy)
  | error e =>
      cases y with
      | error e' => exact hxy
      | ok b =>
          change Agrees ka kb Q (.error e) (g b)
          cases g b with
          | ok b' => exact hxy
          | error e' => exact .inl hxy

/-- The left side goes on alone, and can then only fail in a way of its own. -/
theorem Agrees.bind_own {f : α → Except εa α'} (hxy : Agrees ka kb R x y)
    (hown : ∀ a, x = .ok a → Checks.RaisesOnly (ka · = none) (f a)) :
    Agrees ka kb (fun _ _ => True) (x >>= f) y := by
  cases x with
  | error e =>
      cases y with
      | ok b => exact hxy
      | error e' => exact hxy
  | ok a =>
      change Agrees ka kb _ (f a) y
      cases hfa : f a with
      | error e =>
          have he := hown a rfl e hfa
          cases y with
          | ok b => exact he
          | error e' => exact .inl he
      | ok a' =>
          cases y with
          | ok b => trivial
          | error e' => exact hxy

/-- The errors of the right side under other names. -/
theorem Agrees.mapError_right {εc : Type v} {kc : εc → Option S} {f : εb → εc}
    (h : Agrees ka kb R x y) (hkind : ∀ e, kc (f e) = kb e) :
    Agrees ka kc R x (y.mapError f) := by
  cases y with
  | ok b => cases x <;> exact h
  | error e => cases x <;> simpa [Agrees, Except.mapError, hkind] using h

/-- A loop agrees when its rounds keep two accumulators related. -/
theorem Agrees.foldlM {f : α → γ → Except εa α} {g : β → γ → Except εb β} {l : List γ}
    (step : ∀ a b, ∀ c ∈ l, R a b → Agrees ka kb R (f a c) (g b c)) {a : α} {b : β} (h : R a b) :
    Agrees ka kb R (l.foldlM f a) (l.foldlM g b) := by
  induction l generalizing a b with
  | nil => exact h
  | cons c l ih =>
      rw [List.foldlM_cons, List.foldlM_cons]
      refine (step a b c List.mem_cons_self h).bind fun a' b' _ _ h' => ?_
      exact ih (fun a b c hc => step a b c (List.mem_cons_of_mem _ hc)) h'

/-! ## Using -/

/-- A shared error of the left side is raised by the right side too, unless
that fails on its own. -/
theorem Agrees.raises_right (h : Agrees ka kb R x y) {e : εa} (hx : x = .error e) {s : S}
    (hs : ka e = some s) : ∃ e', y = .error e' ∧ (kb e' = some s ∨ kb e' = none) := by
  subst hx
  cases y with
  | ok b => cases hs.symm.trans h
  | error e' =>
      rcases h with h | h | h
      · cases hs.symm.trans h
      · exact ⟨e', rfl, .inr h⟩
      · exact ⟨e', rfl, .inl (h ▸ hs)⟩

theorem Agrees.raises_left (h : Agrees ka kb R x y) {e : εb} (hy : y = .error e) {s : S}
    (hs : kb e = some s) : ∃ e', x = .error e' ∧ (ka e' = some s ∨ ka e' = none) := by
  subst hy
  cases x with
  | ok a => cases hs.symm.trans h
  | error e' =>
      rcases h with h | h | h
      · exact ⟨e', rfl, .inr h⟩
      · cases hs.symm.trans h
      · exact ⟨e', rfl, .inl (h ▸ hs)⟩

end Agreement
