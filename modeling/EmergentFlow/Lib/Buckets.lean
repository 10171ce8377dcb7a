import EmergentFlow.Lib.Dict

/-!
# Buckets — values by key

Items are gathered in a dictionary of lists: an item is appended to the
list of its key, which starts when its first item is met. Every list is
the items of its key in the order they were met (`get?_collect`), and the
lists together hold every item once (`perm_collect`).
-/

namespace Buckets

variable {κ α β : Type} [DecidableEq κ]

def add (key : α → κ) (val : α → β) (buckets : Dict κ (List β)) (a : α) : Dict κ (List β) :=
  match buckets.get? (key a) with
  | some bucket => buckets.set (key a) (bucket ++ [val a])
  | none => buckets.set (key a) [val a]

def collect (key : α → κ) (val : α → β) (l : List α) : Dict κ (List β) :=
  l.foldl (add key val) .empty

variable {key : α → κ} {val : α → β}

/-- Whether or not the key is new, its list gains the value at its end. -/
theorem add_eq_set (buckets : Dict κ (List β)) (a : α) :
    add key val buckets a = buckets.set (key a) ((buckets.get? (key a)).getD [] ++ [val a]) := by
  rw [add]
  cases buckets.get? (key a) <;> rfl

theorem getD_add (buckets : Dict κ (List β)) (a : α) (k : κ) :
    ((add key val buckets a).get? k).getD [] =
      (buckets.get? k).getD [] ++ if key a = k then [val a] else [] := by
  rw [add_eq_set, Dict.get?_set]
  by_cases hk : key a = k
  · subst hk
    simp
  · simp [hk]

theorem getD_foldl (l : List α) (buckets : Dict κ (List β)) (k : κ) :
    ((l.foldl (add key val) buckets).get? k).getD [] =
      (buckets.get? k).getD [] ++ (l.filter (key · = k)).map val := by
  induction l generalizing buckets with
  | nil => simp
  | cons a l ih =>
      rw [List.foldl_cons, ih, getD_add, List.filter_cons]
      by_cases hk : key a = k <;> simp [hk]

/-- The list of a key: its items, in order. -/
theorem getD_collect (key : α → κ) (val : α → β) (l : List α) (k : κ) :
    ((collect key val l).get? k).getD [] = (l.filter (key · = k)).map val := by
  rw [collect, getD_foldl]
  rfl

theorem mem_keys_foldl (l : List α) (buckets : Dict κ (List β)) {k : κ} :
    k ∈ (l.foldl (add key val) buckets).keys ↔ k ∈ buckets.keys ∨ ∃ a ∈ l, key a = k := by
  induction l generalizing buckets with
  | nil => simp
  | cons a l ih =>
      rw [List.foldl_cons, ih, add_eq_set, Dict.mem_keys_set, List.exists_mem_cons_iff]
      tauto

theorem mem_keys_collect {l : List α} {k : κ} :
    k ∈ (collect key val l).keys ↔ ∃ a ∈ l, key a = k := by
  rw [collect, mem_keys_foldl]
  exact or_iff_right List.not_mem_nil

/-- A list is there as soon as it has an item. -/
theorem get?_collect {l : List α} {k : κ} {bucket : List β} :
    (collect key val l).get? k = some bucket ↔
      bucket ≠ [] ∧ bucket = (l.filter (key · = k)).map val := by
  have hval := getD_collect key val l k
  have hkey : k ∈ (collect key val l).keys ↔ _ := mem_keys_collect
  rw [Dict.mem_keys_iff_isSome] at hkey
  have hempty : (l.filter (key · = k)).map val = [] ↔ ¬ ∃ a ∈ l, key a = k := by
    simp
  cases hget : (collect key val l).get? k with
  | none =>
      rw [hget] at hkey
      have hnone := hempty.mpr fun h => nomatch hkey.mpr h
      rw [hnone]
      exact iff_of_false nofun fun h => h.1 h.2
  | some found =>
      rw [hget, Option.getD_some] at hval
      subst hval
      rw [hget] at hkey
      have hne := mt hempty.mp (not_not.mpr (hkey.mp rfl))
      constructor
      · intro h
        cases h
        exact ⟨hne, rfl⟩
      · rintro ⟨-, rfl⟩
        rfl

/-! ## All items -/

theorem perm_flatten_setL (k : κ) (b : β) (l : List (κ × List β)) :
    ((Dict.setL k ((Dict.lookupL k l).getD [] ++ [b]) l).map Prod.snd).flatten.Perm
      (b :: (l.map Prod.snd).flatten) := by
  induction l with
  | nil => simp [Dict.setL, Dict.lookupL]
  | cons e l ih =>
      obtain ⟨k', bucket⟩ := e
      by_cases hk : k' = k
      · simp only [Dict.setL, Dict.lookupL, hk, if_true, Option.getD_some, List.map_cons,
          List.flatten_cons, List.append_assoc]
        exact List.perm_middle
      · simp only [Dict.setL, Dict.lookupL, hk, if_false, List.map_cons, List.flatten_cons]
        exact (ih.append_left bucket).trans List.perm_middle

/-- The lists together are the items. -/
theorem perm_collect (key : α → κ) (val : α → β) (l : List α) :
    (collect key val l).values.flatten.Perm (l.map val) := by
  have hfold : ∀ (l : List α) (buckets : Dict κ (List β)),
      (l.foldl (add key val) buckets).values.flatten.Perm (buckets.values.flatten ++ l.map val) := by
    intro l
    induction l with
    | nil => simp
    | cons a l ih =>
        intro buckets
        have hadd : (add key val buckets a).values.flatten.Perm
            (val a :: buckets.values.flatten) := by
          rw [add_eq_set]
          exact perm_flatten_setL (key a) (val a) buckets.entries
        refine (ih (add key val buckets a)).trans ((hadd.append_right _).trans ?_)
        exact List.perm_middle.symm
  exact hfold l .empty

end Buckets
