import Mathlib.Algebra.BigOperators.Field
import Mathlib.Algebra.Order.BigOperators.Group.Finset
import EmergentFlow.Lib.AsOf
import EmergentFlow.Timeseries.TimeWeighting

/-!
# Timeseries — Time Weighting Law

What a row of `time_weighted_aggregate` is computed from. The sorting, the running mean, the
look-up and the scatter come to one mean over the rows that the row may look back on, weighted
from its own date (`weigh_column_eq`).
-/

namespace EmergentFlow.Timeseries

open Equiv (Perm)

variable {n : Nat} {ι γ K : Type} [Field K] [LinearOrder K]

/-! ## Weighted means -/

section Mean

variable (hl : HalfLife K)

/-- The mean over a set of rows, weighted by what has elapsed until an instant. -/
def mean_over (date : Fin n → Int) (value : Fin n → Option K) (rows : Finset (Fin n))
    (newest : Int) : Option K :=
  let observed := rows.filter fun r => (value r).isSome
  let num := ∑ r ∈ observed, hl.weight (newest - date r) * (value r).getD 0
  let den := ∑ r ∈ observed, hl.weight (newest - date r)
  if observed = ∅ then none else some (num / den)

variable {hl} [IsStrictOrderedRing K] {date : Fin n → Int} {value : Fin n → Option K}
  {rows : Finset (Fin n)} {newest newest' : Int}

theorem den_pos (h : rows.Nonempty) : 0 < ∑ r ∈ rows, hl.weight (newest - date r) :=
  Finset.sum_pos (fun _ _ => hl.weight_pos _) h

omit [IsStrictOrderedRing K] in
/-- Where the elapsed time is measured from does not matter. -/
theorem mean_over_shift :
    mean_over hl date value rows newest = mean_over hl date value rows newest' := by
  have hshift : ∀ r, hl.weight (newest - date r) =
      hl.weight (newest - newest') * hl.weight (newest' - date r) := by
    intro r
    rw [← hl.weight_add]
    congr 1
    omega
  simp only [mean_over, hshift, mul_assoc, ← Finset.mul_sum]
  rw [mul_div_mul_left _ _ (hl.weight_pos _).ne']

/-- The mean of a list of rows is the one over their set. -/
theorem mean_from_eq {l : List (Fin n)} (hnodup : l.Nodup) :
    mean_from hl newest (l.map fun r => (date r, value r)) =
      mean_over hl date value l.toFinset newest := by
  have hobserved : (l.map fun r => (date r, value r)).filterMap (fun r => r.2.map (r.1, ·)) =
      (l.filter fun r => (value r).isSome).map fun r => (date r, (value r).getD 0) := by
    rw [List.filterMap_map, ← List.filterMap_eq_filter, List.map_filterMap]
    refine List.filterMap_congr fun r _ => ?_
    cases hvalue : value r <;> simp [Option.guard, hvalue]
  have hfilter : l.toFinset.filter (fun r => (value r).isSome) =
      (l.filter fun r => (value r).isSome).toFinset := by
    ext r
    simp
  have hnodup' := hnodup.filter fun r => (value r).isSome
  rw [mean_from, hobserved, mean_over, hfilter]
  simp only [List.map_map, Function.comp_def]
  rw [List.sum_toFinset _ hnodup', List.sum_toFinset _ hnodup']
  by_cases hempty : (l.filter fun r => (value r).isSome) = []
  · simp [hempty]
  · have hne : (l.filter fun r => (value r).isSome).toFinset ≠ ∅ := by
      simpa [List.toFinset_eq_empty_iff] using hempty
    have hpos : 0 < ∑ r ∈ (l.filter fun r => (value r).isSome).toFinset,
        hl.weight (newest - date r) := den_pos (Finset.nonempty_iff_ne_empty.mpr hne)
    rw [List.sum_toFinset _ hnodup'] at hpos
    rw [if_pos hpos, if_neg hne]

/-- The mean of a window, seen from any instant. -/
theorem window_mean_eq {l : List (Fin n)} (hnodup : l.Nodup) :
    window_mean hl (l.map fun r => (date r, value r)) =
      mean_over hl date value l.toFinset newest := by
  rw [window_mean, List.getLast?_map]
  cases hlast : l.getLast? with
  | none =>
      rw [List.getLast?_eq_none_iff.mp hlast]
      rfl
  | some r =>
      rw [Option.map_some, Option.bind_some, mean_from_eq hnodup]
      exact mean_over_shift

/-- Which rows a mean is over can be read off its values. -/
theorem mean_over_inj {rows rows' : Finset (Fin n)} (h : ∀ value,
    mean_over hl date value rows newest = mean_over hl date value rows' newest) : rows = rows' := by
  have hsubset : ∀ {rows rows' : Finset (Fin n)}, (∀ value, mean_over hl date value rows newest =
      mean_over hl date value rows' newest) → rows ⊆ rows' := by
    intro rows rows' h r hr
    by_contra hout
    -- the value of this row alone is not zero
    let value : Fin n → Option K := fun s => some (if s = r then 1 else 0)
    have hobserved : ∀ rows : Finset (Fin n), rows.filter (fun s => (value s).isSome) = rows :=
      fun rows => Finset.filter_true_of_mem fun _ _ => rfl
    have hnum : ∀ rows : Finset (Fin n), ∑ s ∈ rows, hl.weight (newest - date s) *
        (value s).getD 0 = if r ∈ rows then hl.weight (newest - date r) else 0 := by
      intro rows
      simp [value]
    have hmean := h value
    have hne : rows ≠ ∅ := Finset.ne_empty_of_mem hr
    have hpos : 0 < hl.weight (newest - date r) / ∑ s ∈ rows, hl.weight (newest - date s) :=
      div_pos (hl.weight_pos _) (den_pos ⟨r, hr⟩)
    simp only [mean_over, hobserved, hnum, if_neg hne, if_pos hr, if_neg hout, zero_div] at hmean
    split at hmean
    · cases hmean
    · exact hpos.ne' (Option.some.inj hmean)
  exact Finset.Subset.antisymm (hsubset h) (hsubset fun value => (h value).symm)

end Mean

/-! ## One partition -/

section Partition

variable (hl : HalfLife K) {window : Option Nat}

/-- The rows that the mean of a sorted row is over. -/
def window_at {α : Type} (window : Option Nat) (l : List α) (m : Nat) : List α :=
  match window with
  | none => l.take m
  | some w => if m < w then [] else (l.take m).drop (m - w)

theorem date_weighted_mean_eq (hw : ∀ w, window = some w → 0 < w) {rows : List (Int × Option K)}
    {base : List (Option K)} (h : date_weighted_mean hl window rows = .ok base) :
    base = (List.range rows.length).map fun j => window_mean hl (window_at window rows (j + 1)) := by
  cases window with
  | none => exact (Except.ok.inj h).symm
  | some w =>
      have hpos := hw w rfl
      rw [date_weighted_mean] at h
      split at h
      · next hshort =>
          obtain rfl := Except.ok.inj h
          refine List.ext_getElem (by simp) fun j hj _ => ?_
          rw [List.length_map] at hj
          simp only [List.getElem_map, List.getElem_range, window_at]
          rw [if_pos (by omega)]
          rfl
      · next hlong =>
          dsimp only at h
          split at h
          · cases h
          · obtain rfl := Except.ok.inj h
            refine List.ext_getElem (by simp [sliding_windows]; omega) fun j hj _ => ?_
            simp only [List.length_append, List.length_replicate, List.length_map, sliding_windows,
              List.length_range] at hj
            simp only [List.getElem_map, List.getElem_range, window_at, List.getElem_append,
              List.length_replicate]
            -- the first `w - 1` rows have no full window
            by_cases hfirst : j < w - 1
            · rw [dif_pos hfirst, List.getElem_replicate, if_pos (by omega)]
              rfl
            · rw [dif_neg hfirst, if_neg (by omega)]
              simp only [sliding_windows, List.getElem_map, List.getElem_range]
              have hstart : j - (w - 1) = j + 1 - w := by omega
              rw [hstart, List.drop_take]
              have hsize : j + 1 - (j + 1 - w) = w := by omega
              rw [hsize]

/-- The rows that the anchor of a row lets it see. -/
def visible (date : Fin n → Int) (anchors : Option (Fin n → Int)) (i r : Fin n) : Bool :=
  match anchors with
  | none => true
  | some anchors => date r ≤ anchors i

/-- In a list in the order of dates, the rows up to an instant come first. -/
theorem take_countP {α : Type} {p : α → Bool} {l : List α}
    (h : l.Pairwise fun a b => p b = true → p a = true) : l.take (l.countP p) = l.filter p := by
  induction l with
  | nil => rfl
  | cons a l ih =>
      obtain ⟨hhead, hrest⟩ := List.pairwise_cons.mp h
      by_cases ha : p a = true
      · rw [List.countP_cons_of_pos ha, List.take_succ_cons, List.filter_cons_of_pos ha, ih hrest]
      · have hnone : ∀ b ∈ l, ¬ p b = true := fun b hb hpb => ha (hhead b hb hpb)
        rw [List.countP_cons_of_neg ha, List.filter_cons_of_neg ha, List.countP_eq_zero.mpr hnone,
          List.filter_eq_nil_iff.mpr hnone]
        rfl

variable {date : Fin n → Int} {anchors : Option (Fin n → Int)} {value : Fin n → Option K}
  {pos : List (Fin n)}

variable (date) in
/-- The positions of a partition in the order of their dates. -/
theorem sorted_partition (hpos : pos.Pairwise (· < ·)) :
    (pos.mergeSort fun a b => date a ≤ date b).Pairwise fun r s =>
      AsOf.place date 1 r < AsOf.place date 1 s := by
  have hnodup : pos.Nodup := hpos.imp fun h => h.ne
  have htrans : ∀ a b c : Fin n, decide (date a ≤ date b) = true → decide (date b ≤ date c) = true →
      decide (date a ≤ date c) = true := fun a b c hab hbc =>
    decide_eq_true ((of_decide_eq_true hab).trans (of_decide_eq_true hbc))
  have htotal : ∀ a b : Fin n, (decide (date a ≤ date b) || decide (date b ≤ date a)) = true :=
    fun a b => by simpa using le_total (date a) (date b)
  rw [List.pairwise_iff_forall_sublist]
  intro r s hrs
  obtain ⟨hle, hstable⟩ := StableSort.pair_of_mergeSort htrans htotal hnodup hrs
  rcases (of_decide_eq_true hle).lt_or_eq with hlt | heq
  · exact AsOf.place_lt_iff.mpr (.inl hlt)
  · have hbefore := hstable (decide_eq_true heq.ge)
    exact AsOf.place_lt_iff.mpr (.inr ⟨heq, List.pairwise_iff_forall_sublist.mp hpos hbefore⟩)

theorem mem_take_min {α : Type} {l : List α} {a : α} {m m' : Nat} :
    a ∈ l.take (min m m') ↔ a ∈ l.take m ∧ a ∈ l.take m' := by
  have hsub : ∀ {m m' : Nat}, m ≤ m' → a ∈ l.take m → a ∈ l.take m' := fun hle h =>
    (List.take_subset_take_left l hle) h
  rcases le_total m m' with hle | hle
  · rw [min_eq_left hle]
    exact ⟨fun h => ⟨h, hsub hle h⟩, fun h => h.1⟩
  · rw [min_eq_right hle]
    exact ⟨fun h => ⟨hsub hle h, h⟩, fun h => h.2⟩

/-- How many of the sorted rows a row may see, up to itself. -/
def seen (date : Fin n → Int) (anchors : Option (Fin n → Int)) (p : List (Fin n)) (r : Fin n)
    (k : Nat) : Nat :=
  min (p.countP (visible date anchors r)) (k + 1)

/-- The rows that a row sees are those it may see, up to itself. -/
theorem take_seen {p : List (Fin n)} {i : Fin n} {k : Nat}
    (hsorted : p.Pairwise fun r s => AsOf.place date 1 r < AsOf.place date 1 s)
    (hk : p[k]? = some i) : (p.take (seen date anchors p i k)).toFinset =
      AsOf.upTo date 1 (p.toFinset.filter fun r => visible date anchors i r) i := by
  have hfirst : p.take (p.countP (visible date anchors i)) = p.filter (visible date anchors i) := by
    refine take_countP (hsorted.imp fun {r s} hrs hs => ?_)
    cases anchors with
    | none => rfl
    | some anchors =>
        have hdate := AsOf.date_le_of_place_le hrs.le
        exact decide_eq_true (hdate.trans (of_decide_eq_true hs))
  ext r
  rw [seen, AsOf.mem_upTo, List.mem_toFinset, Finset.mem_filter, List.mem_toFinset, mem_take_min,
    hfirst, List.mem_filter]
  constructor
  · rintro ⟨⟨hr, hvisible⟩, hup⟩
    exact ⟨⟨hr, hvisible⟩, (AsOf.mem_take_iff hsorted hk hr).mp hup⟩
  · rintro ⟨⟨hr, hvisible⟩, hup⟩
    exact ⟨⟨hr, hvisible⟩, (AsOf.mem_take_iff hsorted hk hr).mpr hup⟩

/-- The window that ends with the rows a row sees is what it looks back on. -/
theorem window_at_seen (hw : ∀ w, window = some w → 0 < w) {p : List (Fin n)} {i : Fin n} {k : Nat}
    (hsorted : p.Pairwise fun r s => AsOf.place date 1 r < AsOf.place date 1 s)
    (hk : p[k]? = some i) : (window_at window p (seen date anchors p i k)).toFinset =
      AsOf.used date 1 window (p.toFinset.filter fun r => visible date anchors i r) i := by
  have hlength : (p.take (seen date anchors p i k)).length = seen date anchors p i k := by
    have hcount := List.countP_le_length (p := visible date anchors i) (l := p)
    rw [List.length_take, seen]
    omega
  have hnodup : (p.take (seen date anchors p i k)).Nodup :=
    (hsorted.imp fun h heq => h.ne (congrArg _ heq)).sublist (List.take_sublist _ _)
  have hprefix := hsorted.sublist (List.take_sublist (seen date anchors p i k) p)
  rw [AsOf.used, ← take_seen hsorted hk]
  cases window with
  | none => rfl
  | some w =>
      rw [window_at]
      split
      · next hshort =>
          rw [AsOf.last_of_few (by rwa [List.toFinset_card_of_nodup hnodup, hlength])]
          rfl
      · next hlong =>
          rw [AsOf.last_toFinset hprefix (by omega), hlength]

theorem window_at_map {α β : Type} (f : α → β) (window : Option Nat) (l : List α) (m : Nat) :
    window_at window (l.map f) m = (window_at window l m).map f := by
  cases window with
  | none => exact List.map_take.symm
  | some w =>
      rw [window_at, window_at]
      split
      · rfl
      · rw [List.map_drop, List.map_take]

theorem window_at_sublist {α : Type} (window : Option Nat) (l : List α) (m : Nat) :
    (window_at window l m).Sublist l := by
  cases window with
  | none => exact List.take_sublist _ _
  | some w =>
      rw [window_at]
      split
      · exact List.nil_sublist _
      · exact (List.drop_sublist _ _).trans (List.take_sublist _ _)

/-- The running mean looked up after a number of rows. -/
theorem base_at [IsStrictOrderedRing K] (hw : ∀ w, window = some w → 0 < w) {p : List (Fin n)}
    (hnodup : p.Nodup) {base : List (Option K)}
    (h : date_weighted_mean hl window (p.map fun r => (date r, value r)) = .ok base) {m : Nat}
    (hm : m ≤ p.length) (newest : Int) :
    (if 0 < m then (base[m - 1]?).join else none) =
      mean_over hl date value (window_at window p m).toFinset newest := by
  split
  · next hpos =>
      rw [date_weighted_mean_eq hl hw h, List.length_map, List.getElem?_map,
        List.getElem?_range (by omega), Option.map_some, Nat.sub_add_cancel hpos, window_at_map,
        window_mean_eq (hnodup.sublist (window_at_sublist window p m))]
      rfl
  · next hzero =>
      have hnone : window_at window p m = [] := by
        obtain rfl := Nat.eq_zero_of_not_pos hzero
        cases window with
        | none => rfl
        | some w => exact if_pos (hw w rfl)
      rw [hnone]
      rfl

/-- What is computed for a row of a partition. -/
theorem weigh_partition_eq [IsStrictOrderedRing K] (hw : ∀ w, window = some w → 0 < w)
    (hpos : pos.Pairwise (· < ·)) {written : List (Fin n × Option K)}
    (h : weigh_partition hl window date anchors value pos = .ok written) :
    (written.map Prod.fst).Perm pos ∧ ∀ x ∈ written, x.2 = mean_over hl date value
      (AsOf.used date 1 window (pos.toFinset.filter fun r => visible date anchors x.1 r) x.1)
        (date x.1) := by
  have hperm := List.mergeSort_perm pos fun a b => date a ≤ date b
  have hsorted := sorted_partition date hpos
  obtain ⟨base, hbase, h⟩ := Checks.bind_eq_ok.mp h
  dsimp only at hbase h
  generalize pos.mergeSort (fun a b => decide (date a ≤ date b)) = p at *
  have hset : p.toFinset = pos.toFinset := List.toFinset_eq_of_perm _ _ hperm
  have hnodup : p.Nodup := hsorted.imp fun h heq => h.ne (congrArg _ heq)
  have hlength : base.length = p.length := by
    rw [date_weighted_mean_eq hl hw hbase, List.length_map, List.length_range, List.length_map]
  -- what stands at a position of the sorted rows, in terms of the rows seen there
  have hvalue : ∀ {k i}, p[k]? = some i → ∀ v, v = (if 0 < seen date anchors p i k then
      (base[seen date anchors p i k - 1]?).join else none) → v = mean_over hl date value
        (AsOf.used date 1 window (pos.toFinset.filter fun r => visible date anchors i r) i)
          (date i) := by
    intro k i hk v hv
    have hle : seen date anchors p i k ≤ p.length :=
      (Nat.min_le_left _ _).trans List.countP_le_length
    rw [hv, base_at hl hw hnodup hbase hle (date i), window_at_seen hw hsorted hk, hset]
  cases anchors with
  | none =>
      obtain rfl := Except.ok.inj h
      refine ⟨?_, fun x hx => ?_⟩
      · rw [List.map_fst_zip (by omega)]
        exact hperm
      · obtain ⟨k, hk⟩ := List.mem_iff_getElem?.mp hx
        obtain ⟨hrow, hbase'⟩ := List.getElem?_zip_eq_some.mp hk
        have hlt := (List.getElem?_eq_some_iff.mp hrow).1
        have hseen : seen date none p x.1 k = k + 1 := by
          have hcount : p.countP (visible date none x.1) = p.length :=
            List.countP_eq_length.mpr fun _ _ => rfl
          rw [seen, hcount]
          omega
        refine hvalue hrow x.2 ?_
        rw [hseen, if_pos (Nat.succ_pos k), Nat.add_sub_cancel, hbase']
        rfl
  | some anchors =>
      obtain rfl := Except.ok.inj h
      refine ⟨?_, fun x hx => ?_⟩
      · rw [List.map_map]
        exact (List.zipIdx_map_fst 0 p).symm ▸ hperm
      · obtain ⟨⟨i, k⟩, hik, rfl⟩ := List.mem_map.mp hx
        have hrow : p[k]? = some i := List.mem_zipIdx_iff_getElem?.mp hik
        refine hvalue hrow _ ?_
        have hcount : searchsorted_right (p.map date) (anchors i) =
            p.countP (visible date (some anchors) i) := by
          rw [searchsorted_right, List.countP_map]
          rfl
        dsimp only
        rw [hcount, seen]
        by_cases hpos : 0 < p.countP (visible date (some anchors) i)
        · have htake : (min ((p.countP (visible date (some anchors) i) : Int) - 1) k).toNat =
              min (p.countP (visible date (some anchors) i)) (k + 1) - 1 := by omega
          rw [if_pos (by omega), if_pos (by omega), htake]
        · rw [if_neg (by omega), if_neg (by omega)]

end Partition

/-! ## Columns -/

section Column

variable [DecidableEq γ]

/-- The rows of one group. -/
def same_group (df : Frame n ι γ K) (group_col : Option String) (i r : Fin n) : Bool :=
  match group_col with
  | none => true
  | some col => df.keys col r = df.keys col i

/-- The rows of its group that the anchor of a row lets it see. -/
def allowed (df : Frame n ι γ K) (group_col : Option String) (date : Fin n → Int)
    (anchors : Option (Fin n → Int)) (i : Fin n) : Finset (Fin n) :=
  Finset.univ.filter fun r => same_group df group_col i r ∧ visible date anchors i r

variable {df : Frame n ι γ K} {group_col : Option String} {pos : List (Fin n)}

omit [Field K] [LinearOrder K] in
theorem partition_group (hpos : pos ∈ partitions df group_col) : pos.Pairwise (· < ·) ∧
    ∀ i ∈ pos, pos.toFinset = Finset.univ.filter fun r => same_group df group_col i r = true := by
  cases group_col with
  | none =>
      obtain rfl := List.mem_singleton.mp hpos
      refine ⟨List.pairwise_lt_finRange n, fun i _ => ?_⟩
      ext r
      simp [same_group]
  | some col =>
      obtain ⟨k, -, rfl⟩ := List.mem_map.mp hpos
      refine ⟨(List.pairwise_lt_finRange n).filter _, fun i hi => ?_⟩
      have hkey := (Groups.mem_group.mp hi).2
      ext r
      simp only [List.mem_toFinset, Groups.mem_group, List.mem_finRange, true_and, Finset.mem_filter,
        Finset.mem_univ, same_group, decide_eq_true_eq, ← hkey, Option.some.injEq]

omit [Field K] [LinearOrder K] in
theorem exists_partition (df : Frame n ι γ K) (group_col : Option String) (i : Fin n) :
    ∃ pos ∈ partitions df group_col, i ∈ pos := by
  cases group_col with
  | none => exact ⟨_, List.mem_singleton_self _, List.mem_finRange i⟩
  | some col =>
      have hkey : df.keys col i ∈ Groups.keys (fun i => some (df.keys col i)) (List.finRange n) :=
        Groups.mem_keys.mpr ⟨i, List.mem_finRange i, rfl⟩
      refine ⟨_, List.mem_map_of_mem hkey, ?_⟩
      exact Groups.mem_group.mpr ⟨List.mem_finRange i, rfl⟩

variable [IsStrictOrderedRing K] {hl : HalfLife K} {window : Option Nat} {date : Fin n → Int}
  {anchors : Option (Fin n → Int)} {value : Fin n → Option K}

/-- What is appended to a row, in one formula. -/
theorem weigh_column_eq (hw : ∀ w, window = some w → 0 < w) {out : Fin n → Option K}
    (h : weigh_column hl window date anchors (partitions df group_col) value = .ok out)
    (i : Fin n) : out i = mean_over hl date value
      (AsOf.used date 1 window (allowed df group_col date anchors i) i) (date i) := by
  obtain ⟨written, hwritten, h⟩ := Checks.bind_eq_ok.mp h
  obtain rfl := Except.ok.inj h
  have hall : ∀ x ∈ written.flatten, x.2 = mean_over hl date value
      (AsOf.used date 1 window (allowed df group_col date anchors x.1) x.1) (date x.1) := by
    intro x hx
    obtain ⟨part, hpart, hx⟩ := List.mem_flatten.mp hx
    obtain ⟨pos, hpos, hok⟩ := Checks.mem_right_of_mapM hwritten hpart
    obtain ⟨hsorted, hgroup⟩ := partition_group hpos
    obtain ⟨hperm, hvalues⟩ := weigh_partition_eq hl hw hsorted hok
    have hrow : x.1 ∈ pos := hperm.mem_iff.mp (List.mem_map_of_mem hx)
    rw [hvalues x hx, hgroup x.1 hrow, Finset.filter_filter]
    rfl
  obtain ⟨pos, hpos, hi⟩ := exists_partition df group_col i
  obtain ⟨part, hpart, hok⟩ := Checks.mem_left_of_mapM hwritten hpos
  obtain ⟨hperm, -⟩ := weigh_partition_eq hl hw (partition_group hpos).1 hok
  obtain ⟨x, hx, rfl⟩ := List.mem_map.mp (hperm.mem_iff.mpr hi)
  have hx : x ∈ written.flatten := List.mem_flatten.mpr ⟨part, hpart, hx⟩
  -- every row is in one partition, so it was written
  cases hlookup : written.flatten.lookup x.1 with
  | none => simpa using List.lookup_eq_none_iff.mp hlookup x hx
  | some v =>
      obtain ⟨pre, post, hsplit, -⟩ := List.lookup_eq_some_iff.mp hlookup
      have hmem : (x.1, v) ∈ written.flatten := by
        rw [hsplit]
        exact List.mem_append_right _ List.mem_cons_self
      dsimp only
      rw [hlookup]
      exact hall _ hmem

end Column

end EmergentFlow.Timeseries
