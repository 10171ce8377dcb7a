import EmergentFlow.Lib.Checks

/-!
# Together — two computations that succeed together

Two programs with errors of their own, compared on their results only: either both
return, and what they return is related, or neither does (`Option.Rel`). It composes
along binds and loops. A computation in `Except` takes part without its errors.
-/

namespace Together

variable {ε ε' α α' β β' γ : Type} {R : α → β → Prop} {Q : α' → β' → Prop}

/-! ## Without the errors -/

theorem toOption_bind (x : Except ε α) (f : α → Except ε β) :
    (x >>= f).toOption = x.toOption.bind fun a => (f a).toOption := by
  cases x <;> rfl

theorem toOption_mapError (x : Except ε α) (f : ε → ε') : (x.mapError f).toOption = x.toOption := by
  cases x <;> rfl

theorem toOption_require (found : Option α) (err : ε) :
    (Checks.require found err).toOption = found := by
  cases found <;> rfl

theorem toOption_eq_some {x : Except ε α} {a : α} : x.toOption = some a ↔ x = .ok a := by
  cases x <;> simp [Except.toOption]

theorem toOption_mapM (f : α → Except ε β) (l : List α) :
    (l.mapM f).toOption = l.mapM fun a => (f a).toOption := by
  induction l with
  | nil => rfl
  | cons a l ih =>
      simp only [List.mapM_cons, toOption_bind, ih]
      rfl

theorem toOption_foldlM (f : α → β → Except ε α) (l : List β) (a : α) :
    (l.foldlM f a).toOption = l.foldlM (fun a b => (f a b).toOption) a := by
  induction l generalizing a with
  | nil => rfl
  | cons b l ih =>
      simp only [List.foldlM_cons, toOption_bind, ih]
      rfl

theorem mapM_congr {f g : α → Option β} {l : List α} (h : ∀ a ∈ l, f a = g a) :
    l.mapM f = l.mapM g := by
  induction l with
  | nil => rfl
  | cons a l ih =>
      rw [List.mapM_cons, List.mapM_cons, h a List.mem_cons_self,
        ih fun b hb => h b (List.mem_cons_of_mem _ hb)]

theorem mapM_eq_some {f : α → Option β} {l : List α} {r : List β} :
    l.mapM f = some r ↔ List.Forall₂ (fun a b => f a = some b) l r := by
  induction l generalizing r with
  | nil =>
      rw [List.mapM_nil, List.forall₂_nil_left_iff]
      exact ⟨fun h => by cases h; rfl, fun h => by rw [h]; rfl⟩
  | cons a l ih =>
      rw [List.mapM_cons]
      constructor
      · intro h
        obtain ⟨b, hb, h⟩ := Option.bind_eq_some_iff.mp h
        obtain ⟨bs, hbs, h⟩ := Option.bind_eq_some_iff.mp h
        cases h
        exact .cons hb (ih.mp hbs)
      · rintro (_ | ⟨hb, hbs⟩)
        rw [hb, ih.mpr hbs]
        rfl

theorem mapM_isSome_iff {f : α → Option β} {l : List α} :
    (l.mapM f).isSome ↔ ∀ a ∈ l, (f a).isSome := by
  induction l with
  | nil => simp
  | cons a l ih =>
      rw [List.forall_mem_cons, ← ih, List.mapM_cons]
      cases f a with
      | none => simp
      | some b => cases l.mapM f <;> simp

theorem getElem?_of_mapM {f : α → Option β} {l : List α} {r : List β} (h : l.mapM f = some r)
    {i : Nat} {a : α} (ha : l[i]? = some a) : f a = r[i]? := by
  have hforall := mapM_eq_some.mp h
  clear h
  induction hforall generalizing i with
  | nil => simp at ha
  | cons hb _ ih =>
      cases i with
      | zero =>
          obtain rfl : _ = a := by simpa using ha
          exact hb
      | succ i => exact ih (by simpa using ha)

theorem mem_left_of_mapM {f : α → Option β} {l : List α} {r : List β} (h : l.mapM f = some r)
    {a : α} (ha : a ∈ l) : ∃ b ∈ r, f a = some b := by
  have hforall := mapM_eq_some.mp h
  clear h
  induction hforall with
  | nil => cases ha
  | cons hb _ ih =>
      rcases List.mem_cons.mp ha with rfl | ha
      · exact ⟨_, List.mem_cons_self, hb⟩
      · obtain ⟨b, hmem, hfb⟩ := ih ha
        exact ⟨b, List.mem_cons_of_mem _ hmem, hfb⟩

theorem mem_right_of_mapM {f : α → Option β} {l : List α} {r : List β} (h : l.mapM f = some r)
    {b : β} (hb : b ∈ r) : ∃ a ∈ l, f a = some b := by
  have hforall := mapM_eq_some.mp h
  clear h
  induction hforall with
  | nil => cases hb
  | cons hfa _ ih =>
      rcases List.mem_cons.mp hb with rfl | hb
      · exact ⟨_, List.mem_cons_self, hfa⟩
      · obtain ⟨a, hmem, hfa⟩ := ih hb
        exact ⟨a, List.mem_cons_of_mem _ hmem, hfa⟩

/-- A loop each of whose rounds returns something related to its item. -/
theorem mapM_related {f : α → Except ε β} {l : List α} (h : ∀ a ∈ l, ∃ b, f a = .ok b ∧ R a b) :
    ∃ r, l.mapM f = .ok r ∧ List.Forall₂ R l r := by
  induction l with
  | nil => exact ⟨[], rfl, .nil⟩
  | cons a l ih =>
      obtain ⟨b, hb, hab⟩ := h a List.mem_cons_self
      obtain ⟨r, hr, hforall⟩ := ih fun a ha => h a (List.mem_cons_of_mem _ ha)
      refine ⟨b :: r, ?_, .cons hab hforall⟩
      rw [List.mapM_cons, hb, hr]
      rfl

/-! ## Composing -/

theorem bind {x : Option α} {y : Option β} {f : α → Option α'} {g : β → Option β'}
    (h : Option.Rel R x y)
    (hfg : ∀ a b, x = some a → y = some b → R a b → Option.Rel Q (f a) (g b)) :
    Option.Rel Q (x.bind f) (y.bind g) := by
  cases h with
  | none => exact .none
  | some hab => exact hfg _ _ rfl rfl hab

/-- A step that both make with one result. -/
theorem bind_same {x : Option γ} {f : γ → Option α} {g : γ → Option β}
    (h : ∀ c, x = some c → Option.Rel R (f c) (g c)) : Option.Rel R (x.bind f) (x.bind g) := by
  cases x with
  | none => exact .none
  | some c => exact h c rfl

/-- A step that the second makes alone, and cannot fail at. -/
theorem bind_right {Q : α → β' → Prop} {x : Option α} {y : Option β} {g : β → Option β'}
    (h : Option.Rel R x y) (hg : ∀ a b, R a b → ∃ c, g b = some c ∧ Q a c) :
    Option.Rel Q x (y.bind g) := by
  cases h with
  | none => exact .none
  | some hab =>
      obtain ⟨c, hc, hQ⟩ := hg _ _ hab
      rw [Option.bind_some, hc]
      exact .some hQ

/-- A step of the second that keeps what it has come from. -/
theorem bind_map {Q : α → β' → Prop} {x : Option α} {y : Option γ} {g : γ → Option β}
    {f : γ → β → β'} (h : Option.Rel R x (y.bind g)) (hf : ∀ a c b, R a b → Q a (f c b)) :
    Option.Rel Q x (y.bind fun c => (g c).map (f c)) := by
  cases y with
  | none =>
      cases h
      exact .none
  | some c =>
      rw [Option.bind_some] at h ⊢
      generalize g c = b at h
      cases h with
      | none => exact .none
      | some hab => exact .some (hf _ c _ hab)

theorem mono {R' : α → β → Prop} {x : Option α} {y : Option β} (h : Option.Rel R x y)
    (hR : ∀ a b, x = some a → y = some b → R a b → R' a b) : Option.Rel R' x y := by
  cases h with
  | none => exact .none
  | some hab => exact .some (hR _ _ rfl rfl hab)

/-- Two loops over one list, round by round. -/
theorem foldlM {f : α → γ → Option α} {g : β → γ → Option β} {l : List γ} {a : α} {b : β}
    (hab : R a b)
    (hround : ∀ a b, ∀ c ∈ l, R a b → Option.Rel R (f a c) (g b c)) :
    Option.Rel R (l.foldlM f a) (l.foldlM g b) := by
  induction l generalizing a b with
  | nil => exact .some hab
  | cons c l ih =>
      rw [List.foldlM_cons, List.foldlM_cons]
      refine bind (hround a b c List.mem_cons_self hab) fun a' b' _ _ hab' => ?_
      exact ih hab' fun a b c hc => hround a b c (List.mem_cons_of_mem _ hc)

theorem eq_iff {x y : Option α} : Option.Rel Eq x y ↔ x = y := by
  constructor
  · intro h
    cases h with
    | none => rfl
    | some h => rw [h]
  · rintro rfl
    cases x with
    | none => exact .none
    | some a => exact .some rfl

theorem foldlM_congr {f f' : β → γ → Option β} {l : List γ} (h : ∀ c ∈ l, ∀ b, f b c = f' b c)
    (b : β) : l.foldlM f b = l.foldlM f' b := by
  refine eq_iff.mp (foldlM rfl fun b b' c hc heq => ?_)
  rw [heq, h c hc, eq_iff]

theorem isSome_iff {x : Option α} {y : Option β} (h : Option.Rel R x y) :
    x.isSome ↔ y.isSome := by
  cases h <;> simp

theorem left {x : Option α} {y : Option β} (h : Option.Rel R x y) {a : α} (ha : x = some a) :
    ∃ b, y = some b ∧ R a b := by
  cases h with
  | none => cases ha
  | some hab =>
      cases ha
      exact ⟨_, rfl, hab⟩

theorem left_none {x : Option α} {y : Option β} (h : Option.Rel R x y) (hx : x = none) :
    y = none := by
  cases h with
  | none => rfl
  | some _ => cases hx

/-! ## Collecting first and running afterwards -/

/-- When items are made one by one and then run one by one, making and running each in
turn succeeds just when both do. -/
theorem mapM_foldlM (make : γ → Option α) (run : β → α → Option β) (l : List γ) (b : β) :
    ((l.mapM make).bind fun items => items.foldlM run b) =
      l.foldlM (fun b c => (make c).bind (run b)) b := by
  induction l generalizing b with
  | nil => rfl
  | cons c l ih =>
      rw [List.foldlM_cons, List.mapM_cons]
      cases hmake : make c with
      | none => rfl
      | some a =>
          show ((l.mapM make).bind fun items => some (a :: items)).bind _ = (run b a).bind _
          rw [Option.bind_assoc]
          show ((l.mapM make).bind fun items => (run b a).bind fun b => items.foldlM run b) = _
          cases hrun : run b a with
          | none =>
              show ((l.mapM make).bind fun _ => none) = none
              cases l.mapM make <;> rfl
          | some b' => exact ih b'

/-- A loop that appends what it makes is a loop that collects it. -/
theorem foldlM_concat (make : γ → Except ε α) (l : List γ) (start : List α) :
    l.foldlM (fun items c => do
      let item ← make c
      pure (items ++ [item])) start = (l.mapM make).map (start ++ ·) := by
  induction l generalizing start with
  | nil => simp [pure, Except.pure, Except.map]
  | cons c l ih =>
      rw [List.foldlM_cons, List.mapM_cons]
      cases make c with
      | error e => rfl
      | ok item =>
          refine (ih (start ++ [item])).trans ?_
          cases l.mapM make with
          | error e => rfl
          | ok items =>
              show Except.ok (start ++ [item] ++ items) = Except.ok (start ++ item :: items)
              rw [List.append_assoc]
              rfl

/-! ## Filling a map -/

section Fill

variable {κ : Type} [DecidableEq κ] {key : β → κ} {value : β → Option α} {l : List β}

theorem foldlM_set_isSome_iff (d : Dict κ α) :
    (l.foldlM (fun d b => (value b).map (d.set (key b))) d).isSome ↔
      ∀ b ∈ l, (value b).isSome := by
  induction l generalizing d with
  | nil => simp
  | cons b l ih =>
      rw [List.foldlM_cons, List.forall_mem_cons]
      cases hvalue : value b with
      | none => simp
      | some a => simpa using ih (d.set (key b) a)

/-- Under distinct keys every item is found, and other keys have what they had. -/
theorem get?_foldlM_set {d d' : Dict κ α} (hnodup : (l.map key).Nodup)
    (h : l.foldlM (fun d b => (value b).map (d.set (key b))) d = some d') :
    (∀ b ∈ l, d'.get? (key b) = value b) ∧ ∀ k ∉ l.map key, d'.get? k = d.get? k := by
  induction l generalizing d with
  | nil =>
      cases h
      exact ⟨fun _ hb => absurd hb List.not_mem_nil, fun _ _ => rfl⟩
  | cons b l ih =>
      rw [List.map_cons, List.nodup_cons] at hnodup
      rw [List.foldlM_cons] at h
      obtain ⟨mid, hmid, h⟩ := Option.bind_eq_some_iff.mp h
      obtain ⟨a, ha, rfl⟩ := Option.map_eq_some_iff.mp hmid
      obtain ⟨hfound, hkept⟩ := ih hnodup.2 h
      constructor
      · rw [List.forall_mem_cons]
        exact ⟨by rw [hkept _ hnodup.1, Dict.get?_set_self, ha], hfound⟩
      · intro k hk
        rw [List.map_cons, List.mem_cons, not_or] at hk
        rw [hkept k hk.2, Dict.get?_set_ne _ _ (Ne.symm hk.1)]

/-- Filling a map and collecting a list, from the same items. -/
theorem foldlM_set_mapM (key : β → κ) (d : Dict κ α) (hnodup : (l.map key).Nodup) :
    Option.Rel (fun d' values => values.length = l.length ∧
        ∀ (i : Nat) b, l[i]? = some b → d'.get? (key b) = values[i]?)
      (l.foldlM (fun d b => (value b).map (d.set (key b))) d) (l.mapM value) := by
  have hsome : (l.foldlM (fun d b => (value b).map (d.set (key b))) d).isSome ↔
      (l.mapM value).isSome := by
    rw [foldlM_set_isSome_iff, mapM_isSome_iff]
  cases hfill : l.foldlM (fun d b => (value b).map (d.set (key b))) d with
  | none =>
      cases hlist : l.mapM value with
      | none => exact .none
      | some values =>
          rw [hfill, hlist] at hsome
          simp at hsome
  | some d' =>
      cases hlist : l.mapM value with
      | none =>
          rw [hfill, hlist] at hsome
          simp at hsome
      | some values =>
          refine .some ⟨(mapM_eq_some.mp hlist).length_eq.symm, fun i b hb => ?_⟩
          rw [(get?_foldlM_set hnodup hfill).1 b (List.mem_of_getElem? hb)]
          exact getElem?_of_mapM hlist hb

/-- The same, when every item has a value at hand. -/
theorem get?_foldl_set {value : β → α} (d : Dict κ α) (hnodup : (l.map key).Nodup) (k : κ) :
    (l.foldl (fun d b => d.set (key b) (value b)) d).get? k =
      ((l.find? (key · = k)).map value).or (d.get? k) := by
  induction l generalizing d with
  | nil => rfl
  | cons b l ih =>
      rw [List.map_cons, List.nodup_cons] at hnodup
      rw [List.foldl_cons, ih _ hnodup.2, List.find?_cons]
      by_cases hk : key b = k
      · subst hk
        simp only [Dict.find?_key_eq_none.mpr hnodup.1, decide_true, Option.map_none,
          Option.none_or, Option.map_some, Option.some_or, Dict.get?_set_self]
      · simp only [hk, decide_false, Dict.get?_set_ne d _ hk]

theorem get?_ofList_map {value : β → α} (hnodup : (l.map key).Nodup) (k : κ) :
    (Dict.ofList (l.map fun b => (key b, value b))).get? k = (l.find? (key · = k)).map value := by
  rw [Dict.ofList, List.foldl_map, get?_foldl_set _ hnodup, Dict.get?_empty, Option.or_none]

theorem find?_entries (d : Dict κ α) (k : κ) :
    (d.entries.find? (·.1 = k)).map Prod.snd = d.get? k := by
  cases hget : d.get? k with
  | some a =>
      rw [Dict.find?_key d.nodup ((Dict.mem_entries_iff _).mpr hget)]
      rfl
  | none =>
      rw [Option.map_eq_none_iff, Dict.find?_key_eq_none]
      exact (Dict.get?_eq_none_iff _).mp hget

/-- What is in the map was there or was put there. -/
theorem mem_of_foldlM_set {d d' : Dict κ α}
    (h : l.foldlM (fun d b => (value b).map (d.set (key b))) d = some d') {k : κ} {a : α}
    (hk : d'.get? k = some a) :
    d.get? k = some a ∨ ∃ b ∈ l, key b = k ∧ value b = some a := by
  induction l generalizing d with
  | nil =>
      cases h
      exact .inl hk
  | cons b l ih =>
      rw [List.foldlM_cons] at h
      obtain ⟨mid, hmid, h⟩ := Option.bind_eq_some_iff.mp h
      obtain ⟨a', ha', rfl⟩ := Option.map_eq_some_iff.mp hmid
      rcases ih h with hthere | ⟨b', hb', hkey⟩
      · rw [Dict.get?_set] at hthere
        split at hthere
        · rename_i hb
          exact .inr ⟨b, List.mem_cons_self, hb, ha'.trans hthere⟩
        · exact .inl hthere
      · exact .inr ⟨b', List.mem_cons_of_mem _ hb', hkey⟩

/-- Two maps, filled under the same keys with values that are related. -/
theorem foldlM_set (key : β → κ) {value' : β → Option α'} {R : α → α' → Prop} (d : Dict κ α)
    (d' : Dict κ α') (hvalue : ∀ b ∈ l, Option.Rel R (value b) (value' b))
    (hd : ∀ k, Option.Rel R (d.get? k) (d'.get? k)) :
    Option.Rel (fun e e' => ∀ k, Option.Rel R (e.get? k) (e'.get? k))
      (l.foldlM (fun d b => (value b).map (d.set (key b))) d)
      (l.foldlM (fun d b => (value' b).map (d.set (key b))) d') := by
  refine foldlM hd fun e e' b hb he => ?_
  rw [Option.map_eq_bind, Option.map_eq_bind]
  refine bind (hvalue b hb) fun a a' _ _ ha => .some fun k => ?_
  rw [Dict.get?_set, Dict.get?_set]
  split
  · exact .some ha
  · exact he k

end Fill

/-- A lookup in a list of named items. -/
theorem lookup_map {κ κ' : Type} [DecidableEq κ] [BEq κ'] [LawfulBEq κ'] {c : κ → κ'}
    (hc : Function.Injective c) (key : β → κ) (value : β → α) (l : List β) (k : κ) :
    (l.map fun b => (c (key b), value b)).lookup (c k) = (l.find? (key · = k)).map value := by
  induction l with
  | nil => rfl
  | cons b l ih =>
      rw [List.map_cons, List.lookup_cons, List.find?_cons]
      by_cases hk : key b = k
      · simp [hk]
      · have hne : (c k == c (key b)) = false := beq_eq_false_iff_ne.mpr fun h => hk (hc h).symm
        simp only [hne, hk, decide_false]
        exact ih

theorem mem_of_lookup {κ' : Type} [BEq κ'] [LawfulBEq κ'] {l : List (κ' × α)} {k : κ'} {a : α}
    (h : l.lookup k = some a) : (k, a) ∈ l := by
  induction l with
  | nil => cases h
  | cons e l ih =>
      rw [List.lookup_cons] at h
      cases hk : k == e.1 with
      | true =>
          rw [hk] at h
          cases h
          rw [beq_iff_eq.mp hk]
          exact List.mem_cons_self
      | false =>
          rw [hk] at h
          exact List.mem_cons_of_mem _ (ih h)

theorem lookup_map_eq_none {κ' : Type} [BEq κ'] [LawfulBEq κ'] {name : β → κ'} {value : β → α}
    {l : List β} {k : κ'} (h : ∀ b ∈ l, name b ≠ k) :
    (l.map fun b => (name b, value b)).lookup k = none := by
  induction l with
  | nil => rfl
  | cons b l ih =>
      rw [List.forall_mem_cons] at h
      rw [List.map_cons, List.lookup_cons, beq_eq_false_iff_ne.mpr h.1.symm]
      exact ih h.2

end Together
