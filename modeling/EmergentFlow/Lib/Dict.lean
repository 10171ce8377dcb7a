import Mathlib.Data.List.Nodup
import Mathlib.Data.List.Lookmap

/-!
# Dict — insertion-ordered dictionaries

A finite map held as a list of key/value pairs with pairwise distinct
keys, in insertion order: assigning to a present key keeps its place,
assigning to an absent one appends, and deletion closes the gap. This is
the behaviour of the built-in dictionary of Python and of the plain
record object of JavaScript (for keys that are not array indices).

The distinctness of the keys is a field, so every dictionary that can be
built satisfies it and no lemma about lookups has to assume it.
-/

universe u v w

/-- An insertion-ordered dictionary: `entries` lists every key once. -/
structure Dict (κ : Type u) (α : Type v) where
  entries : List (κ × α)
  nodup : (entries.map Prod.fst).Nodup

namespace Dict

variable {κ : Type u} {α : Type v} {β : Type w}

instance [DecidableEq κ] [DecidableEq α] : DecidableEq (Dict κ α) := fun a b =>
  decidable_of_iff (a.entries = b.entries) <| by
    cases a; cases b; simp

instance : Inhabited (Dict κ α) := ⟨⟨[], List.nodup_nil⟩⟩

theorem ext_entries {a b : Dict κ α} (h : a.entries = b.entries) : a = b := by
  cases a; cases b; simpa using h

/-! ## The association-list operations -/

section Lists

variable [DecidableEq κ]

/-- The value at the first occurrence of `k`. -/
def lookupL (k : κ) : List (κ × α) → Option α
  | [] => none
  | (k', a) :: rest => if k' = k then some a else lookupL k rest

/-- Overwrite the first occurrence of `k`, or append. -/
def setL (k : κ) (a : α) : List (κ × α) → List (κ × α)
  | [] => [(k, a)]
  | (k', a') :: rest => if k' = k then (k, a) :: rest else (k', a') :: setL k a rest

/-- Drop every occurrence of `k`. -/
def eraseL (k : κ) (l : List (κ × α)) : List (κ × α) :=
  l.filter (fun e => e.1 ≠ k)

theorem lookupL_setL (k k' : κ) (a : α) (l : List (κ × α)) :
    lookupL k' (setL k a l) = if k = k' then some a else lookupL k' l := by
  induction l with
  | nil => simp [setL, lookupL]
  | cons e rest ih =>
      obtain ⟨q, b⟩ := e
      by_cases hq : q = k
      · subst hq
        by_cases hk : q = k' <;> simp [setL, lookupL, hk]
      · by_cases hk : q = k'
        · subst hk
          simp [setL, lookupL, hq, Ne.symm hq]
        · simp [setL, lookupL, hq, hk, ih]

theorem lookupL_eraseL (k k' : κ) (l : List (κ × α)) :
    lookupL k' (eraseL k l) = if k = k' then none else lookupL k' l := by
  induction l with
  | nil => simp [eraseL, lookupL]
  | cons e rest ih =>
      obtain ⟨q, b⟩ := e
      have hstep : eraseL k ((q, b) :: rest)
          = if q = k then eraseL k rest else (q, b) :: eraseL k rest := by
        by_cases hq : q = k <;> simp [eraseL, hq]
      rw [hstep]
      by_cases hq : q = k
      · subst hq
        rw [if_pos rfl, ih]
        by_cases hk : q = k' <;> simp [lookupL, hk]
      · rw [if_neg hq]
        by_cases hk : q = k'
        · subst hk
          simp [lookupL, Ne.symm hq]
        · simp [lookupL, hk, ih]

theorem lookupL_eq_some_of_mem {l : List (κ × α)} (hl : (l.map Prod.fst).Nodup)
    {k : κ} {a : α} (h : (k, a) ∈ l) : lookupL k l = some a := by
  induction l with
  | nil => simp at h
  | cons e rest ih =>
      obtain ⟨q, b⟩ := e
      rw [List.map_cons, List.nodup_cons] at hl
      rcases List.mem_cons.mp h with heq | hmem
      · cases heq
        simp [lookupL]
      · have hq : q ≠ k := by
          rintro rfl
          exact hl.1 (List.mem_map.mpr ⟨(q, a), hmem, rfl⟩)
        simp [lookupL, hq, ih hl.2 hmem]

theorem mem_of_lookupL {l : List (κ × α)} {k : κ} {a : α}
    (h : lookupL k l = some a) : (k, a) ∈ l := by
  induction l with
  | nil => simp [lookupL] at h
  | cons e rest ih =>
      obtain ⟨q, b⟩ := e
      by_cases hq : q = k
      · subst hq
        simp only [lookupL, if_pos, Option.some.injEq] at h
        simp [h]
      · simp only [lookupL, if_neg hq] at h
        exact List.mem_cons_of_mem _ (ih h)

theorem keys_setL (k : κ) (a : α) (l : List (κ × α)) :
    (setL k a l).map Prod.fst
      = if k ∈ l.map Prod.fst then l.map Prod.fst else l.map Prod.fst ++ [k] := by
  induction l with
  | nil => simp [setL]
  | cons e rest ih =>
      obtain ⟨q, b⟩ := e
      by_cases hq : q = k
      · subst hq
        simp [setL]
      · simp only [setL, if_neg hq, List.map_cons, ih, List.mem_cons,
          Ne.symm hq, false_or]
        by_cases hk : k ∈ rest.map Prod.fst <;> simp [hk]

theorem nodup_setL (k : κ) (a : α) {l : List (κ × α)}
    (hl : (l.map Prod.fst).Nodup) : ((setL k a l).map Prod.fst).Nodup := by
  rw [keys_setL]
  split
  · exact hl
  · rename_i hk
    rw [List.nodup_append]
    refine ⟨hl, List.nodup_singleton _, ?_⟩
    intro x hx y hy hxy
    rw [List.mem_singleton] at hy
    subst hy; subst hxy
    exact hk hx

theorem nodup_eraseL (k : κ) {l : List (κ × α)}
    (hl : (l.map Prod.fst).Nodup) : ((eraseL k l).map Prod.fst).Nodup :=
  hl.sublist (List.Sublist.map _ List.filter_sublist)

theorem setL_of_notMem {k : κ} {a : α} {l : List (κ × α)}
    (h : k ∉ l.map Prod.fst) : setL k a l = l ++ [(k, a)] := by
  induction l with
  | nil => rfl
  | cons e rest ih =>
      obtain ⟨q, b⟩ := e
      simp only [List.map_cons, List.mem_cons, not_or] at h
      simp [setL, Ne.symm h.1, ih h.2]

end Lists

/-! ## The dictionary operations -/

/-- The empty dictionary `{}`. -/
def empty : Dict κ α := ⟨[], List.nodup_nil⟩

/-- The keys, in insertion order. -/
def keys (d : Dict κ α) : List κ := d.entries.map Prod.fst

/-- The values, in insertion order. -/
def values (d : Dict κ α) : List α := d.entries.map Prod.snd

/-- `len(d)`. -/
def size (d : Dict κ α) : Nat := d.entries.length

theorem nodup_keys (d : Dict κ α) : d.keys.Nodup := d.nodup

/-- Apply `f` to every value, keeping the keys and their order. -/
def mapValues (f : κ → α → β) (d : Dict κ α) : Dict κ β :=
  ⟨d.entries.map (fun e => (e.1, f e.1 e.2)), by
    have h : (d.entries.map (fun e => (e.1, f e.1 e.2))).map Prod.fst
        = d.entries.map Prod.fst := by simp [Function.comp_def]
    rw [h]; exact d.nodup⟩

/-- The entries whose key and value satisfy `p`, in order. -/
def filter (p : κ → α → Bool) (d : Dict κ α) : Dict κ α :=
  ⟨d.entries.filter (fun e => p e.1 e.2),
    d.nodup.sublist (List.Sublist.map _ List.filter_sublist)⟩

theorem keys_mapValues (f : κ → α → β) (d : Dict κ α) :
    (d.mapValues f).keys = d.keys := by
  simp [keys, mapValues, Function.comp_def]

theorem mapValues_mapValues {γ : Type*} (f : κ → α → β) (g : κ → β → γ) (d : Dict κ α) :
    (d.mapValues f).mapValues g = d.mapValues fun k a => g k (f k a) :=
  ext_entries (by simp [mapValues, Function.comp_def])

variable [DecidableEq κ]

/-- `d.get(k)`. -/
def get? (d : Dict κ α) (k : κ) : Option α := lookupL k d.entries

/-- `k in d`. -/
def contains (d : Dict κ α) (k : κ) : Bool := (d.get? k).isSome

/-- `d[k] = a`. -/
def set (d : Dict κ α) (k : κ) (a : α) : Dict κ α :=
  ⟨setL k a d.entries, nodup_setL k a d.nodup⟩

/-- `del d[k]`, and nothing when `k` is absent. -/
def erase (d : Dict κ α) (k : κ) : Dict κ α :=
  ⟨eraseL k d.entries, nodup_eraseL k d.nodup⟩

/-- The dictionary a comprehension over `l` builds: later pairs win. -/
def ofList (l : List (κ × α)) : Dict κ α :=
  l.foldl (fun d e => d.set e.1 e.2) empty

/-- `d[k] = f(d[k])` for a present key: an update in place. -/
def modify (d : Dict κ α) (k : κ) (f : α → α) : Dict κ α :=
  match d.get? k with
  | none => d
  | some a => d.set k (f a)

@[simp] theorem get?_empty (k : κ) : (empty : Dict κ α).get? k = none := rfl

theorem get?_set (d : Dict κ α) (k k' : κ) (a : α) :
    (d.set k a).get? k' = if k = k' then some a else d.get? k' :=
  lookupL_setL k k' a d.entries

@[simp] theorem get?_set_self (d : Dict κ α) (k : κ) (a : α) :
    (d.set k a).get? k = some a := by simp [get?_set]

theorem get?_set_ne (d : Dict κ α) {k k' : κ} (a : α) (h : k ≠ k') :
    (d.set k a).get? k' = d.get? k' := by simp [get?_set, h]

theorem get?_erase (d : Dict κ α) (k k' : κ) :
    (d.erase k).get? k' = if k = k' then none else d.get? k' :=
  lookupL_eraseL k k' d.entries

@[simp] theorem get?_erase_self (d : Dict κ α) (k : κ) :
    (d.erase k).get? k = none := by simp [get?_erase]

theorem get?_erase_ne (d : Dict κ α) {k k' : κ} (h : k ≠ k') :
    (d.erase k).get? k' = d.get? k' := by simp [get?_erase, h]

theorem get?_modify (d : Dict κ α) (k k' : κ) (f : α → α) :
    (d.modify k f).get? k' = if k = k' then (d.get? k').map f else d.get? k' := by
  unfold modify
  by_cases hk : k = k'
  · subst hk
    cases h : d.get? k with
    | none => simp [h]
    | some a => simp
  · cases h : d.get? k with
    | none => simp [hk]
    | some a => simp [get?_set, hk]

theorem mem_entries_iff (d : Dict κ α) {k : κ} {a : α} :
    (k, a) ∈ d.entries ↔ d.get? k = some a :=
  ⟨lookupL_eq_some_of_mem d.nodup, mem_of_lookupL⟩

theorem mem_values_iff (d : Dict κ α) {a : α} :
    a ∈ d.values ↔ ∃ k, d.get? k = some a := by
  simp only [values, List.mem_map, Prod.exists, exists_eq_right, mem_entries_iff]

theorem mem_keys_iff (d : Dict κ α) {k : κ} :
    k ∈ d.keys ↔ ∃ a, d.get? k = some a := by
  simp only [keys, List.mem_map, Prod.exists, exists_and_right, exists_eq_right,
    mem_entries_iff]

theorem mem_keys_iff_isSome (d : Dict κ α) {k : κ} :
    k ∈ d.keys ↔ (d.get? k).isSome = true := by
  rw [mem_keys_iff, Option.isSome_iff_exists]

theorem get?_eq_none_iff (d : Dict κ α) {k : κ} :
    d.get? k = none ↔ k ∉ d.keys := by
  rw [mem_keys_iff_isSome]
  cases d.get? k <;> simp

@[simp] theorem contains_iff (d : Dict κ α) {k : κ} :
    d.contains k = true ↔ ∃ a, d.get? k = some a := by
  simp [contains, Option.isSome_iff_exists]

theorem not_contains_iff (d : Dict κ α) {k : κ} :
    d.contains k = false ↔ d.get? k = none := by
  simp [contains]

/-- A dictionary is determined by its keys, in order, and its lookups. -/
theorem ext_get? {a b : Dict κ α} (hkeys : a.keys = b.keys)
    (hget : ∀ k, a.get? k = b.get? k) : a = b := by
  have hlists : ∀ l l' : List (κ × α), (l.map Prod.fst).Nodup → l.map Prod.fst = l'.map Prod.fst →
      (∀ k ∈ l.map Prod.fst, lookupL k l = lookupL k l') → l = l' := by
    intro l
    induction l with
    | nil =>
        intro l' _ hk _
        exact (List.map_eq_nil_iff.mp hk.symm).symm
    | cons e l ih =>
        intro l' hnodup hk hget
        obtain ⟨e', l', rfl, he, hl⟩ := List.map_eq_cons_iff.mp hk.symm
        obtain ⟨k, x⟩ := e
        obtain ⟨k', x'⟩ := e'
        cases he
        rw [List.map_cons, List.nodup_cons] at hnodup
        have hx : x = x' := by simpa [lookupL] using hget k (by simp)
        rw [hx, ih l' hnodup.2 hl.symm]
        intro q hq
        have hne : k ≠ q := fun heq => hnodup.1 (heq ▸ hq)
        simpa [lookupL, hne] using hget q (by simp [hq])
  exact ext_entries (hlists _ _ a.nodup hkeys fun k _ => hget k)

theorem get?_mapValues (f : κ → α → β) (d : Dict κ α) (k : κ) :
    (d.mapValues f).get? k = (d.get? k).map (f k) := by
  obtain ⟨l, hl⟩ := d
  show lookupL k (l.map (fun e => (e.1, f e.1 e.2))) = (lookupL k l).map (f k)
  clear hl
  induction l with
  | nil => rfl
  | cons e rest ih =>
      obtain ⟨q, b⟩ := e
      by_cases hq : q = k
      · subst hq; simp [lookupL]
      · simp only [List.map_cons, lookupL, if_neg hq, ih]

theorem get?_filter (p : κ → α → Bool) (d : Dict κ α) (k : κ) :
    (d.filter p).get? k = (d.get? k).filter (p k) := by
  cases h : d.get? k with
  | none =>
      rw [Option.filter_none, get?_eq_none_iff]
      intro hk
      obtain ⟨a, ha⟩ := (mem_keys_iff _).mp hk
      rw [← mem_entries_iff] at ha
      have hmem : (k, a) ∈ d.entries := List.mem_of_mem_filter ha
      rw [mem_entries_iff, h] at hmem
      exact absurd hmem (by simp)
  | some a =>
      have hmem := (mem_entries_iff d).mpr h
      by_cases hp : p k a = true
      · rw [Option.filter_some, if_pos hp, ← mem_entries_iff]
        exact List.mem_filter.mpr ⟨hmem, hp⟩
      · rw [Option.filter_some, if_neg hp, get?_eq_none_iff]
        intro hk
        obtain ⟨b, hb⟩ := (mem_keys_iff _).mp hk
        rw [← mem_entries_iff] at hb
        obtain ⟨hb1, hb2⟩ := List.mem_filter.mp hb
        rw [mem_entries_iff, h, Option.some.injEq] at hb1
        subst hb1
        exact hp hb2

omit [DecidableEq κ] in
theorem keys_filter (p : κ → Bool) (d : Dict κ α) :
    (d.filter fun k _ => p k).keys = d.keys.filter p := by
  rw [keys, keys, List.filter_map]
  rfl

theorem keys_set_of_mem (d : Dict κ α) {k : κ} (a : α) (h : k ∈ d.keys) :
    (d.set k a).keys = d.keys := by
  show (setL k a d.entries).map Prod.fst = d.entries.map Prod.fst
  rw [keys_setL, if_pos (show k ∈ d.entries.map Prod.fst from h)]

theorem mapValues_set (f : κ → α → β) (d : Dict κ α) (k : κ) (a : α) :
    (d.set k a).mapValues f = (d.mapValues f).set k (f k a) := by
  have hlist : ∀ l : List (κ × α), (setL k a l).map (fun e => (e.1, f e.1 e.2)) =
      setL k (f k a) (l.map fun e => (e.1, f e.1 e.2)) := by
    intro l
    induction l with
    | nil => rfl
    | cons e l ih =>
        by_cases he : e.1 = k
        · simp [setL, he]
        · simp [setL, he, ih]
  exact ext_entries (hlist d.entries)

theorem entries_set_of_notMem (d : Dict κ α) {k : κ} (a : α) (h : k ∉ d.keys) :
    (d.set k a).entries = d.entries ++ [(k, a)] := setL_of_notMem h

omit [DecidableEq κ] in
/-- Without the keys of its first entries, a list of entries is its rest. -/
theorem filter_notMem_take {l : List (κ × α)} (hl : (l.map Prod.fst).Nodup) (n : Nat)
    {p : κ × α → Bool} (hp : ∀ e, p e = true ↔ e.1 ∉ (l.take n).map Prod.fst) :
    l.filter p = l.drop n := by
  rw [← List.take_append_drop n l, List.map_append] at hl
  have hdisjoint := (List.nodup_append.mp hl).2.2
  have htake : (l.take n).filter p = [] := by
    rw [List.filter_eq_nil_iff]
    intro e he
    rw [hp, not_not]
    exact List.mem_map_of_mem he
  have hdrop : (l.drop n).filter p = l.drop n := by
    rw [List.filter_eq_self]
    intro e he
    rw [hp]
    intro hmem
    exact hdisjoint _ hmem _ (List.mem_map_of_mem he) rfl
  have happ := List.filter_append (p := p) (l.take n) (l.drop n)
  rwa [List.take_append_drop, htake, hdrop, List.nil_append] at happ

/-- Of two writes to a key the second stays. -/
theorem set_set (d : Dict κ α) (k : κ) (a b : α) : (d.set k a).set k b = d.set k b := by
  apply ext_entries
  show setL k b (setL k a d.entries) = setL k b d.entries
  induction d.entries with
  | nil => simp [setL]
  | cons e rest ih =>
      by_cases he : e.1 = k
      · simp [setL, he]
      · simp [setL, he, ih]

theorem modify_of_get? (d : Dict κ α) {k : κ} {a : α} (f : α → α) (h : d.get? k = some a) :
    d.modify k f = d.set k (f a) := by
  rw [modify, h]

theorem mem_keys_set (d : Dict κ α) {k k' : κ} (a : α) :
    k' ∈ (d.set k a).keys ↔ k' = k ∨ k' ∈ d.keys := by
  rw [mem_keys_iff_isSome, mem_keys_iff_isSome, get?_set]
  by_cases h : k = k'
  · simp [h]
  · simp [h, Ne.symm h]

/-- A dictionary built from distinct keys lists them as given. -/
theorem entries_ofList {l : List (κ × α)} (h : (l.map Prod.fst).Nodup) :
    (ofList l).entries = l := by
  have hfold : ∀ (l : List (κ × α)) (d : Dict κ α), (d.keys ++ l.map Prod.fst).Nodup →
      (l.foldl (fun d e => d.set e.1 e.2) d).entries = d.entries ++ l := by
    intro l
    induction l with
    | nil => intro d _; simp
    | cons e l ih =>
        intro d hd
        have hfresh : e.1 ∉ d.keys := by
          intro hmem
          rw [List.nodup_append] at hd
          exact hd.2.2 _ hmem _ (by simp) rfl
        have hentries := entries_set_of_notMem d e.2 hfresh
        have hkeys : (d.set e.1 e.2).keys = d.keys ++ [e.1] := by
          simp [keys, hentries]
        rw [List.foldl_cons, ih _ (by rw [hkeys]; simpa using hd), hentries]
        simp
  simpa [ofList, empty, keys] using hfold l empty (by simpa [empty, keys] using h)

/-- What a dictionary built from pairs holds was among them. -/
theorem mem_of_get?_ofList {l : List (κ × α)} {k : κ} {a : α}
    (h : (ofList l).get? k = some a) : (k, a) ∈ l := by
  have hfold : ∀ (l : List (κ × α)) (d : Dict κ α),
      (l.foldl (fun d e => d.set e.1 e.2) d).get? k = some a →
        (k, a) ∈ l ∨ d.get? k = some a := by
    intro l
    induction l with
    | nil => exact fun d h => .inr h
    | cons e l ih =>
        intro d h
        rcases ih (d.set e.1 e.2) h with h | h
        · exact .inl (List.mem_cons_of_mem _ h)
        · rw [get?_set] at h
          split at h
          · rename_i heq
            cases h
            exact .inl (heq ▸ List.mem_cons_self)
          · exact .inr h
  simpa using hfold l empty h

/-- A dictionary built from pairs has all their keys. -/
theorem get?_ofList_of_mem {l : List (κ × α)} {k : κ} (h : k ∈ l.map Prod.fst) :
    ∃ a, (ofList l).get? k = some a := by
  have hfold : ∀ (l : List (κ × α)) (d : Dict κ α),
      k ∈ l.map Prod.fst ∨ (∃ a, d.get? k = some a) →
        ∃ a, (l.foldl (fun d e => d.set e.1 e.2) d).get? k = some a := by
    intro l
    induction l with
    | nil => exact fun d h => h.resolve_left (by simp)
    | cons e l ih =>
        intro d h
        rw [List.foldl_cons]
        apply ih
        rw [List.map_cons, List.mem_cons] at h
        rw [get?_set]
        split
        · exact .inr ⟨_, rfl⟩
        · rename_i hne
          rcases h with (rfl | hmem) | hfound
          · exact absurd rfl hne
          · exact .inl hmem
          · exact .inr hfound
  exact hfold l empty (.inl h)

/-- Applying `f` to the values of the pairs applies it to the lookups. -/
theorem get?_ofList_map (f : α → β) (l : List (κ × α)) (k : κ) :
    (ofList (l.map fun e => (e.1, f e.2))).get? k = ((ofList l).get? k).map f := by
  have hfold : ∀ (l : List (κ × α)) (d : Dict κ α) (d' : Dict κ β),
      (∀ k, d'.get? k = (d.get? k).map f) →
        ((l.map fun e => (e.1, f e.2)).foldl (fun d e => d.set e.1 e.2) d').get? k =
          ((l.foldl (fun d e => d.set e.1 e.2) d).get? k).map f := by
    intro l
    induction l with
    | nil => intro d d' h; exact h k
    | cons e l ih =>
        intro d d' h
        rw [List.map_cons, List.foldl_cons, List.foldl_cons]
        apply ih
        intro k'
        rw [get?_set, get?_set, h]
        split <;> rfl
  exact hfold l empty empty fun k => rfl

/-! ## Bulk updates -/

/-- `d'` is `d` without the keys `ks`, all of which it had. -/
structure Removed (ks : List κ) (d d' : Dict κ α) : Prop where
  nodup : ks.Nodup
  present : ∀ k ∈ ks, ∃ a, d.get? k = some a
  gone : ∀ k ∈ ks, d'.get? k = none
  frame : ∀ k ∉ ks, d'.get? k = d.get? k

theorem Removed.nil (d : Dict κ α) : Removed [] d d :=
  ⟨List.nodup_nil, by simp, by simp, fun _ _ => rfl⟩

theorem Removed.cons {ks : List κ} {d d' : Dict κ α} {k : κ} {a : α}
    (hk : d.get? k = some a) (h : Removed ks (d.erase k) d') : Removed (k :: ks) d d' := by
  have hnot : k ∉ ks := by
    intro hmem
    obtain ⟨b, hb⟩ := h.present k hmem
    simp at hb
  refine ⟨List.nodup_cons.mpr ⟨hnot, h.nodup⟩, ?_, ?_, ?_⟩
  · intro q hq
    rcases List.mem_cons.mp hq with rfl | hq
    · exact ⟨a, hk⟩
    · obtain ⟨b, hb⟩ := h.present q hq
      have hne : k ≠ q := by
        rintro rfl
        exact hnot hq
      exact ⟨b, get?_erase_ne d hne ▸ hb⟩
  · intro q hq
    rcases List.mem_cons.mp hq with rfl | hq
    · rw [h.frame q hnot, get?_erase_self]
    · exact h.gone q hq
  · intro q hq
    rw [List.mem_cons, not_or] at hq
    rw [h.frame q hq.2, get?_erase_ne _ (Ne.symm hq.1)]

/-- A key is free once the keys that are not removed are free of it. -/
theorem Removed.get?_eq_none {ks : List κ} {d d' : Dict κ α} (h : Removed ks d d') {k : κ}
    (hk : k ∉ ks → d.get? k = none) : d'.get? k = none := by
  by_cases hmem : k ∈ ks
  · exact h.gone k hmem
  · rw [h.frame k hmem, hk hmem]

/-- `d'` is `d` with the values `l` stored under their keys, all new. -/
structure Inserted (key : α → κ) (l : List α) (d d' : Dict κ α) : Prop where
  nodup : (l.map key).Nodup
  fresh : ∀ a ∈ l, d.get? (key a) = none
  here : ∀ a ∈ l, d'.get? (key a) = some a
  frame : ∀ k ∉ l.map key, d'.get? k = d.get? k

theorem Inserted.nil (key : α → κ) (d : Dict κ α) : Inserted key [] d d :=
  ⟨List.nodup_nil, by simp, by simp, fun _ _ => rfl⟩

theorem Inserted.cons {key : α → κ} {l : List α} {d d' : Dict κ α} {a : α}
    (ha : d.get? (key a) = none) (h : Inserted key l (d.set (key a) a) d') :
    Inserted key (a :: l) d d' := by
  have hnot : key a ∉ l.map key := by
    intro hmem
    obtain ⟨b, hb, hkey⟩ := List.mem_map.mp hmem
    have := h.fresh b hb
    rw [hkey, get?_set_self] at this
    simp at this
  refine ⟨List.nodup_cons.mpr ⟨hnot, h.nodup⟩, ?_, ?_, ?_⟩
  · intro b hb
    rcases List.mem_cons.mp hb with rfl | hb
    · exact ha
    · have hne : key a ≠ key b := fun heq => hnot (heq ▸ List.mem_map_of_mem hb)
      rw [← get?_set_ne d a hne]
      exact h.fresh b hb
  · intro b hb
    rcases List.mem_cons.mp hb with rfl | hb
    · rw [h.frame _ hnot, get?_set_self]
    · exact h.here b hb
  · intro k hk
    rw [List.map_cons, List.mem_cons, not_or] at hk
    rw [h.frame k hk.2, get?_set_ne d a (Ne.symm hk.1)]

/-- With keys taken out and values of another dict put in, a lookup tells the two
apart by the key. -/
theorem Inserted.get?_exchange {key : α → κ} {ks : List κ} {orig : List α}
    {source d d₁ d₂ : Dict κ α} (hremoved : Removed ks d d₁) (hadded : Inserted key orig d₁ d₂)
    (horig : ∀ a ∈ orig, source.get? (key a) = some a) (k : κ) :
    d₂.get? k = if k ∈ orig.map key then source.get? k else
      if k ∈ ks then none else d.get? k := by
  by_cases hk : k ∈ orig.map key
  · rw [if_pos hk]
    obtain ⟨a, ha, rfl⟩ := List.mem_map.mp hk
    rw [hadded.here a ha, horig a ha]
  · rw [if_neg hk, hadded.frame k hk]
    by_cases hmem : k ∈ ks
    · rw [if_pos hmem, hremoved.gone k hmem]
    · rw [if_neg hmem, hremoved.frame k hmem]

/-! ## Storing a list -/

theorem find?_key_eq_none {key : α → κ} {l : List α} {k : κ} :
    l.find? (key · = k) = none ↔ k ∉ l.map key := by
  simp [List.find?_eq_none]

/-- Of values with distinct keys the one that is found is the one there is. -/
theorem find?_key {key : α → κ} {l : List α} (hnodup : (l.map key).Nodup) {a : α} (ha : a ∈ l) :
    l.find? (key · = key a) = some a := by
  cases hfound : l.find? (key · = key a) with
  | none => exact absurd (List.mem_map_of_mem ha) (find?_key_eq_none.mp hfound)
  | some b =>
      have hkey : key b = key a := by simpa using List.find?_some hfound
      rw [List.inj_on_of_nodup_map hnodup (List.mem_of_find?_eq_some hfound) ha hkey]

/-- `d` with the values of `l` stored under their keys, the later ones over the
earlier. -/
def merge (d : Dict κ α) (key : α → κ) (l : List α) : Dict κ α :=
  l.foldl (fun d a => d.set (key a) a) d

theorem get?_merge {key : α → κ} {l : List α} (d : Dict κ α) (hnodup : (l.map key).Nodup) (k : κ) :
    (d.merge key l).get? k = (l.find? (key · = k)).or (d.get? k) := by
  rw [merge]
  induction l generalizing d with
  | nil => rfl
  | cons a l ih =>
      rw [List.map_cons, List.nodup_cons] at hnodup
      rw [List.foldl_cons, ih _ hnodup.2, List.find?_cons]
      by_cases hk : key a = k
      · subst hk
        simp only [find?_key_eq_none.mpr hnodup.1, decide_true, Option.none_or, Option.some_or,
          get?_set_self]
      · simp only [hk, decide_false, get?_set_ne d a hk]

end Dict
