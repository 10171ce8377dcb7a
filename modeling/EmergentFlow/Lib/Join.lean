import Mathlib.Data.List.Sort
import Mathlib.Data.List.Nodup
import Mathlib.Data.List.Dedup

/-!
# Join — tables joined and grouped by a key

The left join of two lists of rows by a key of each, and the groups of a
list by a key. A join keeps every left row once when the keys on the right
are distinct, and uses every right row at most once when those on the left
are.
-/

namespace Join

variable {α β κ : Type*} [DecidableEq κ]

/-! ## Left joins -/

/-- Every left row with the right rows of its key, or alone. -/
def left (kl : α → κ) (kr : β → κ) (l : List α) (r : List β) : List (α × Option β) :=
  l.flatMap fun a =>
    match r.filter fun b => kr b = kl a with
    | [] => [(a, none)]
    | found => found.map fun b => (a, some b)

variable {kl : α → κ} {kr : β → κ} {l : List α} {r : List β}

/-- Among distinct keys at most one row has a given one. -/
theorem filter_key_of_nodup (hr : (r.map kr).Nodup) (k : κ) :
    r.filter (fun b => kr b = k) = [] ∨ ∃ b, kr b = k ∧ r.filter (fun b => kr b = k) = [b] := by
  induction r with
  | nil => exact .inl rfl
  | cons c r ih =>
      rw [List.map_cons, List.nodup_cons] at hr
      by_cases hc : kr c = k
      · right
        refine ⟨c, hc, ?_⟩
        rw [List.filter_cons_of_pos (by simpa using hc)]
        congr 1
        rw [List.filter_eq_nil_iff]
        intro b hb
        rw [decide_eq_true_eq]
        rintro rfl
        exact hr.1 (hc ▸ List.mem_map_of_mem hb)
      · rw [List.filter_cons_of_neg (by simpa using hc)]
        exact ih hr.2

/-- With distinct keys on the right, the left rows stay as they are. -/
theorem map_fst_left (hr : (r.map kr).Nodup) : (left kl kr l r).map Prod.fst = l := by
  induction l with
  | nil => rfl
  | cons a l ih =>
      rw [left, List.flatMap_cons, List.map_append]
      rcases filter_key_of_nodup hr (kl a) with h | ⟨b, -, h⟩
      · rw [h]
        exact congrArg (a :: ·) ih
      · rw [h]
        exact congrArg (a :: ·) ih

/-- A row is joined with the rows of its key. -/
theorem mem_left {a : α} {b : β} :
    (a, some b) ∈ left kl kr l r ↔ a ∈ l ∧ b ∈ r ∧ kr b = kl a := by
  have hrow : ∀ a', (a, some b) ∈ (match r.filter fun b => kr b = kl a' with
      | [] => [(a', none)]
      | found => found.map fun b => (a', some b)) ↔ a' = a ∧ b ∈ r.filter fun b => kr b = kl a' := by
    intro a'
    cases r.filter fun b => kr b = kl a' with
    | nil => simp
    | cons c found => simp [and_or_left, eq_comm, and_comm]
  simp only [left, List.mem_flatMap, hrow, List.mem_filter, decide_eq_true_eq]
  constructor
  · rintro ⟨a', ha', rfl, hb⟩
    exact ⟨ha', hb⟩
  · rintro ⟨ha, hb⟩
    exact ⟨a, ha, rfl, hb⟩

/-- With distinct keys on both sides, no right row is used twice. -/
theorem nodup_filterMap_snd (hl : (l.map kl).Nodup) (hr : (r.map kr).Nodup) :
    ((left kl kr l r).filterMap Prod.snd).Nodup := by
  induction l with
  | nil => exact List.nodup_nil
  | cons a l ih =>
      rw [List.map_cons, List.nodup_cons] at hl
      have hrest := ih hl.2
      have hsplit : left kl kr (a :: l) r =
          (match r.filter fun b => kr b = kl a with
            | [] => [(a, none)]
            | found => found.map fun b => (a, some b)) ++ left kl kr l r := rfl
      rw [hsplit, List.filterMap_append]
      rcases filter_key_of_nodup hr (kl a) with h | ⟨b, hb, h⟩
      · rw [h]
        exact hrest
      · rw [h]
        refine List.nodup_cons.mpr ⟨fun hmem => ?_, hrest⟩
        obtain ⟨⟨a', o⟩, hmem', rfl⟩ := List.mem_filterMap.mp hmem
        obtain ⟨ha', -, hb'⟩ := mem_left.mp hmem'
        exact hl.1 (List.mem_map.mpr ⟨a', ha', hb'.symm.trans hb⟩)

/-! ## Groups -/

/-- The places of a list by the key of what stands there, in key order. -/
def groups (key : α → κ) (le : κ → κ → Bool) (l : List α) : List (κ × List Nat) :=
  ((l.map key).dedup.mergeSort le).map fun k =>
    (k, (l.zipIdx.filter fun e => key e.1 = k).map Prod.snd)

theorem key_of_mem_groups {key : α → κ} {le : κ → κ → Bool} {g : κ × List Nat}
    (hg : g ∈ groups key le l) {i : Nat} (hi : i ∈ g.2) : (l[i]?).map key = some g.1 := by
  obtain ⟨k, -, rfl⟩ := List.mem_map.mp hg
  obtain ⟨⟨a, j⟩, hmem, rfl⟩ := List.mem_map.mp hi
  rw [List.mem_filter, decide_eq_true_eq] at hmem
  rw [(List.mem_zipIdx_iff_getElem?.mp hmem.1)]
  exact congrArg some hmem.2

end Join
