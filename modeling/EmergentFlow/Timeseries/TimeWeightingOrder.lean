import Mathlib.Algebra.Field.Rat
import Mathlib.Algebra.Order.Ring.Rat
import Mathlib.Data.Fin.VecNotation
import Mathlib.Tactic.NormNum
import EmergentFlow.Timeseries.TimeWeightingLaw

/-!
# Timeseries — Time Weighting Order

The promises of `time_weighted_aggregate` about the order of the table. A permuted frame is
refused when the frame is, and its rows look back on the rows of the frame in another order
(`permuted_row`). So the order has no say exactly where no window starts or ends between rows
of one date.
-/

namespace EmergentFlow.Timeseries

open Equiv (Perm)

variable {n : Nat} {ι γ K : Type} [Field K] [LinearOrder K]

/-! ## Another order of the table -/

section Permuted

variable {hl : HalfLife K} {window : Option Nat}

/-- `elapsed`, of the dates of a window. -/
def elapsed_dates (window : List Int) : List Int :=
  (window.getLast?.map fun newest => window.map fun t => newest - t).getD []

omit [Field K] [LinearOrder K] in
theorem elapsed_eq (window : List (Int × Option K)) :
    elapsed window = elapsed_dates (window.map Prod.fst) := by
  rw [elapsed, elapsed_dates, List.getLast?_map]
  cases window.getLast? with
  | none => rfl
  | some newest => simp only [Option.map_some, Option.getD_some, List.map_map, Function.comp_def]

theorem sliding_windows_map {α β : Type} (f : α → β) (l : List α) (w : Nat) :
    sliding_windows (l.map f) w = (sliding_windows l w).map (List.map f) := by
  simp only [sliding_windows, List.length_map, List.map_map]
  refine List.map_congr_left fun k _ => ?_
  rw [Function.comp, List.map_take, List.map_drop]

/-- Whether a mean is refused depends on the dates. -/
theorem date_weighted_mean_exists {rows rows' : List (Int × Option K)}
    (hdates : rows'.map Prod.fst = rows.map Prod.fst)
    (h : ∃ base, date_weighted_mean hl window rows = .ok base) :
    ∃ base, date_weighted_mean hl window rows' = .ok base := by
  obtain ⟨base, h⟩ := h
  cases window with
  | none => exact ⟨_, rfl⟩
  | some w =>
      have hlength := congrArg List.length hdates
      rw [List.length_map, List.length_map] at hlength
      have helapsed : ∀ rows : List (Int × Option K), (sliding_windows rows w).flatMap elapsed =
          (sliding_windows (rows.map Prod.fst) w).flatMap elapsed_dates := by
        intro rows
        rw [sliding_windows_map, List.flatMap_map]
        exact List.flatMap_congr fun window _ => elapsed_eq window
      rw [date_weighted_mean] at h ⊢
      rw [hlength]
      by_cases hshort : rows.length < w
      · exact ⟨_, if_pos hshort⟩
      · rw [if_neg hshort] at h ⊢
        dsimp only at h ⊢
        rw [helapsed, hdates, ← helapsed]
        split at h
        · cases h
        · next hspan => exact ⟨_, if_neg hspan⟩

/-- A partition is refused for its sorted dates. -/
theorem weigh_partition_exists {date date' : Fin n → Int} {anchors anchors' : Option (Fin n → Int)}
    {value value' : Fin n → Option K} {pos pos' : List (Fin n)}
    (hdates : (pos'.map date').Perm (pos.map date))
    (h : ∃ written, weigh_partition hl window date anchors value pos = .ok written) :
    ∃ written, weigh_partition hl window date' anchors' value' pos' = .ok written := by
  obtain ⟨written, h⟩ := h
  obtain ⟨base, hbase, -⟩ := Checks.bind_eq_ok.mp h
  have hsorted : ∀ (date : Fin n → Int) (pos : List (Fin n)),
      ((pos.mergeSort fun a b => date a ≤ date b).map date).Pairwise (· ≤ ·) := fun date pos =>
    List.pairwise_map.mpr (StableSort.pairwise_mergeSort_key date pos)
  have hperm : ∀ (date : Fin n → Int) (pos : List (Fin n)),
      ((pos.mergeSort fun a b => date a ≤ date b).map date).Perm (pos.map date) := fun date pos =>
    (List.mergeSort_perm pos _).map date
  have heq := List.Perm.eq_of_pairwise (fun _ _ _ _ => le_antisymm) (hsorted date' pos')
    (hsorted date pos) ((hperm date' pos').trans (hdates.trans (hperm date pos).symm))
  have hrows : ((pos'.mergeSort fun a b => date' a ≤ date' b).map fun r =>
      (date' r, value' r)).map Prod.fst =
        ((pos.mergeSort fun a b => date a ≤ date b).map fun r => (date r, value r)).map Prod.fst := by
    rw [List.map_map, List.map_map]
    exact heq
  obtain ⟨base', hbase'⟩ := date_weighted_mean_exists hrows ⟨base, hbase⟩
  cases anchors' with
  | none => exact ⟨_, Checks.bind_eq_ok.mpr ⟨base', hbase', rfl⟩⟩
  | some anchors' => exact ⟨_, Checks.bind_eq_ok.mpr ⟨base', hbase', rfl⟩⟩

omit [Field K] [LinearOrder K] in
/-- The partitions of the permuted frame are those of the frame. -/
theorem partitions_permute [DecidableEq γ] {df : Frame n ι γ K} {group_col : Option String}
    (σ : Perm (Fin n)) {pos' : List (Fin n)} (h : pos' ∈ partitions (df.permute σ) group_col) :
    ∃ pos ∈ partitions df group_col, (pos'.map σ).Perm pos := by
  have hrange : ((List.finRange n).map σ).Perm (List.finRange n) :=
    Equiv.Perm.map_finRange_perm σ
  cases group_col with
  | none =>
      obtain rfl := List.mem_singleton.mp h
      exact ⟨_, List.mem_singleton_self _, hrange⟩
  | some col =>
      obtain ⟨k, hk, rfl⟩ := List.mem_map.mp h
      obtain ⟨i, -, hi⟩ := Groups.mem_keys.mp hk
      refine ⟨_, List.mem_map_of_mem (Groups.mem_keys.mpr ⟨σ i, List.mem_finRange _, hi⟩), ?_⟩
      have hfilter := hrange.filter fun i => some (df.keys col i) = some k
      rw [List.filter_map] at hfilter
      exact hfilter

/-- The column of a permuted frame is not refused either. -/
theorem weigh_column_exists [DecidableEq γ] {df : Frame n ι γ K} {group_col : Option String}
    {date : Fin n → Int} {anchors anchors' : Option (Fin n → Int)} {value value' : Fin n → Option K}
    (σ : Perm (Fin n))
    (h : ∃ out, weigh_column hl window date anchors (partitions df group_col) value = .ok out) :
    ∃ out, weigh_column hl window (date ∘ σ) anchors' (partitions (df.permute σ) group_col) value' =
      .ok out := by
  obtain ⟨out, h⟩ := h
  obtain ⟨written, hwritten, -⟩ := Checks.bind_eq_ok.mp h
  have hparts : ∀ pos' ∈ partitions (df.permute σ) group_col, ∃ written,
      weigh_partition hl window (date ∘ σ) anchors' value' pos' = .ok written := by
    intro pos' hpos'
    obtain ⟨pos, hpos, hperm⟩ := partitions_permute σ hpos'
    obtain ⟨part, -, hok⟩ := Checks.mem_left_of_mapM hwritten hpos
    refine weigh_partition_exists ?_ ⟨part, hok⟩
    rw [← List.map_map]
    exact hperm.map date
  obtain ⟨written', hwritten'⟩ := Checks.mapM_exists hparts
  exact ⟨_, Checks.bind_eq_ok.mpr ⟨written', hwritten', rfl⟩⟩

end Permuted

/-! ## The aggregate -/

section Aggregate

variable [DecidableEq γ] (parse_timestamp : String → Option Int) (df : Frame n ι γ K)
  (r : WeightRequest K)

/-- The dates of the rows, where none is missing. -/
def row_dates (i : Fin n) : Int := (df.dates r.date_col i).getD 0

def row_anchors : Option (Fin n → Int) :=
  match r.anchor with
  | none => none
  | some (.timestamp t) => some fun _ => t
  | some (.text s) =>
      if s ∈ df.columns then some fun i => (df.dates s i).getD 0
      else (parse_timestamp s).map fun t _ => t

/-- What a row of the frame looks back on. -/
def looks_back (i : Fin n) : Finset (Fin n) :=
  AsOf.used (row_dates df r) 1 (r.window.map Int.toNat)
    (allowed df r.group_col (row_dates df r) (row_anchors parse_timestamp df r) i) i

/-- The frame with other values. -/
def Frame.with_values (values : String → Fin n → Option K) : Frame n ι γ K := { df with values }

variable {parse_timestamp df r} {out : Weighted n ι γ K}

theorem all_dates_eq {col : Fin n → Option Int} {dates : Fin n → Int}
    (h : all_dates col = some dates) : (∀ i, (col i).isSome) ∧ dates = fun i => (col i).getD 0 := by
  rw [all_dates] at h
  split at h
  · next hall => exact ⟨hall, (Option.some.inj h).symm⟩
  · cases h

omit [DecidableEq γ] in
theorem resolve_anchor_eq {anchors : Option (Fin n → Int)}
    (h : resolve_anchor parse_timestamp df r.anchor = .ok anchors) :
    anchors = row_anchors parse_timestamp df r := by
  rw [row_anchors]
  cases hanchor : r.anchor with
  | none =>
      rw [hanchor] at h
      exact (Except.ok.inj h).symm
  | some anchor =>
      rw [hanchor] at h
      cases anchor with
      | timestamp t => exact (Except.ok.inj h).symm
      | text s =>
          rw [resolve_anchor] at h
          dsimp only
          split at h
          · next hcol =>
              rw [if_pos hcol]
              cases hdates : all_dates (df.dates s) with
              | none =>
                  rw [hdates] at h
                  cases h
              | some dates =>
                  rw [hdates] at h
                  obtain rfl := Except.ok.inj h
                  rw [(all_dates_eq hdates).2]
          · next hcol =>
              rw [if_neg hcol]
              cases hparse : parse_timestamp s with
              | none =>
                  rw [hparse] at h
                  cases h
              | some t =>
                  rw [hparse] at h
                  exact (Except.ok.inj h).symm

omit [DecidableEq γ] in
/-- A window that passed the checks has a row, and there is a column. -/
theorem check_request_ok (h : check_request df r = .ok ()) :
    r.columns ≠ [] ∧ ∀ w, r.window.map Int.toNat = some w → 0 < w := by
  simp only [check_request, Checks.then_eq_ok, Checks.guard_eq_ok, Checks.forM_eq_ok,
    decide_eq_true_eq] at h
  refine ⟨h.1, fun w hw => ?_⟩
  obtain ⟨window, hwindow, rfl⟩ := Option.map_eq_some_iff.mp hw
  have hone := h.2.2.2.2.1 window (by simp [hwindow])
  omega

/-- What is appended to the rows, in one formula. -/
theorem time_weighted_aggregate_eq [IsStrictOrderedRing K]
    (h : time_weighted_aggregate parse_timestamp df r = .ok out) :
    out = ⟨df, r.columns.map fun col => (tw_name col, fun i => mean_over r.half_life
      (row_dates df r) (df.values col) (looks_back parse_timestamp df r i) (row_dates df r i))⟩ := by
  obtain ⟨⟨⟩, hcheck, h⟩ := Checks.bind_eq_ok.mp h
  split at h
  · next hzero =>
      subst hzero
      obtain rfl := Except.ok.inj h
      refine congrArg (Weighted.mk df) (List.map_congr_left fun col _ => ?_)
      exact congrArg (Prod.mk (tw_name col)) (funext fun i => i.elim0)
  · cases hdates : all_dates (df.dates r.date_col) with
    | none =>
        rw [hdates] at h
        cases h
    | some dates =>
        rw [hdates] at h
        obtain ⟨anchors, hanchors, h⟩ := Checks.bind_eq_ok.mp h
        obtain ⟨tw, htw, h⟩ := Checks.bind_eq_ok.mp h
        obtain rfl := Except.ok.inj h
        obtain rfl : dates = row_dates df r := (all_dates_eq hdates).2
        obtain rfl := resolve_anchor_eq hanchors
        refine congrArg (Weighted.mk df) ?_
        rw [← List.map_id tw]
        refine Checks.map_eq_of_mapM (fun col c hc => ?_) htw
        obtain ⟨o, ho, hc⟩ := Checks.bind_eq_ok.mp hc
        obtain rfl := Except.ok.inj hc
        exact congrArg (Prod.mk (tw_name col))
          (funext fun i => weigh_column_eq (check_request_ok hcheck).2 ho i)

theorem all_dates_permute {col : Fin n → Option Int} {dates : Fin n → Int} (σ : Perm (Fin n))
    (h : all_dates col = some dates) : all_dates (col ∘ σ) = some (dates ∘ σ) := by
  obtain ⟨hall, rfl⟩ := all_dates_eq h
  exact if_pos fun i => hall (σ i)

omit [DecidableEq γ] in
theorem resolve_anchor_permute {anchors : Option (Fin n → Int)}
    (values : String → Fin n → Option K) (σ : Perm (Fin n))
    (h : resolve_anchor parse_timestamp df r.anchor = .ok anchors) :
    ∃ anchors, resolve_anchor parse_timestamp ((df.with_values values).permute σ) r.anchor =
      .ok anchors := by
  cases hanchor : r.anchor with
  | none => exact ⟨_, rfl⟩
  | some anchor =>
      rw [hanchor] at h
      cases anchor with
      | timestamp t => exact ⟨_, rfl⟩
      | text s =>
          rw [resolve_anchor] at h ⊢
          by_cases hcol : s ∈ df.columns
          · rw [if_pos hcol] at h
            cases hdates : all_dates (df.dates s) with
            | none =>
                rw [hdates] at h
                cases h
            | some dates =>
                have hdates' : all_dates (((df.with_values values).permute σ).dates s) =
                    some (dates ∘ σ) := all_dates_permute σ hdates
                refine ⟨some (dates ∘ σ), (if_pos hcol).trans ?_⟩
                rw [hdates']
          · rw [if_neg hcol] at h
            exact ⟨anchors, (if_neg hcol).trans h⟩

/-- A call that returns does so for other values, and in another order. -/
theorem time_weighted_aggregate_exists
    (h : ∃ out, time_weighted_aggregate parse_timestamp df r = .ok out)
    (values : String → Fin n → Option K) (σ : Perm (Fin n)) : ∃ out,
      time_weighted_aggregate parse_timestamp ((df.with_values values).permute σ) r = .ok out := by
  obtain ⟨out, h⟩ := h
  obtain ⟨⟨⟩, hcheck, h⟩ := Checks.bind_eq_ok.mp h
  by_cases hzero : n = 0
  · exact ⟨_, Checks.bind_eq_ok.mpr ⟨(), hcheck, if_pos hzero⟩⟩
  · rw [if_neg hzero] at h
    cases hdates : all_dates (df.dates r.date_col) with
    | none =>
        rw [hdates] at h
        cases h
    | some dates =>
        rw [hdates] at h
        obtain ⟨anchors, hanchors, h⟩ := Checks.bind_eq_ok.mp h
        obtain ⟨tw, htw, -⟩ := Checks.bind_eq_ok.mp h
        obtain ⟨anchors', hanchors'⟩ := resolve_anchor_permute values σ hanchors
        have hcols : ∀ col ∈ r.columns, ∃ c, (do
            let out ← weigh_column r.half_life (r.window.map Int.toNat) (dates ∘ σ) anchors'
              (partitions ((df.with_values values).permute σ) r.group_col)
              (((df.with_values values).permute σ).values col)
            return (tw_name col, out) : Except TimeseriesError _) = .ok c := by
          intro col hcol
          obtain ⟨c, -, hc⟩ := Checks.mem_left_of_mapM htw hcol
          obtain ⟨o, ho, -⟩ := Checks.bind_eq_ok.mp hc
          have ho : ∃ o, weigh_column r.half_life (r.window.map Int.toNat) dates anchors
              (partitions (df.with_values values) r.group_col) (df.values col) = .ok o := ⟨o, ho⟩
          obtain ⟨o', ho'⟩ := weigh_column_exists σ ho
          exact ⟨_, Checks.bind_eq_ok.mpr ⟨o', ho', rfl⟩⟩
        obtain ⟨tw', htw'⟩ := Checks.mapM_exists hcols
        refine ⟨⟨(df.with_values values).permute σ, tw'⟩, Checks.bind_eq_ok.mpr ⟨(), hcheck, ?_⟩⟩
        rw [if_neg hzero]
        have hdates' : all_dates (((df.with_values values).permute σ).dates r.date_col) =
            some (dates ∘ σ) := all_dates_permute σ hdates
        rw [hdates']
        exact Checks.bind_eq_ok.mpr ⟨anchors', hanchors', Checks.bind_eq_ok.mpr ⟨tw', htw', rfl⟩⟩

omit [DecidableEq γ] in
/-- A mean over the permuted arrays is one over the permuted rows. -/
theorem mean_over_permute {hl : HalfLife K} {date : Fin n → Int} {value : Fin n → Option K}
    (σ : Perm (Fin n)) (rows : Finset (Fin n)) (newest : Int) :
    mean_over hl (date ∘ σ) (value ∘ σ) rows newest =
      mean_over hl date value (rows.map σ.toEmbedding) newest := by
  have hobserved : (rows.map σ.toEmbedding).filter (fun r => (value r).isSome) =
      (rows.filter fun r => ((value ∘ σ) r).isSome).map σ.toEmbedding := by
    rw [Finset.filter_map]
    rfl
  simp only [mean_over, hobserved, Finset.sum_map, Finset.map_eq_empty]
  rfl

omit [DecidableEq γ] in
theorem row_anchors_permute (values : String → Fin n → Option K) (σ : Perm (Fin n)) :
    row_anchors parse_timestamp ((df.with_values values).permute σ) r =
      (row_anchors parse_timestamp df r).map (· ∘ σ) := by
  rw [row_anchors, row_anchors]
  cases r.anchor with
  | none => rfl
  | some anchor =>
      cases anchor with
      | timestamp t => rfl
      | text s =>
          dsimp only
          by_cases hcol : s ∈ df.columns
          · rw [if_pos hcol]
            exact if_pos hcol
          · rw [if_neg hcol, Option.map_map]
            exact if_neg hcol

theorem allowed_permute (values : String → Fin n → Option K) (σ : Perm (Fin n)) (i : Fin n) :
    (allowed ((df.with_values values).permute σ) r.group_col
      (row_dates ((df.with_values values).permute σ) r)
        (row_anchors parse_timestamp ((df.with_values values).permute σ) r) i).map σ.toEmbedding =
      allowed df r.group_col (row_dates df r) (row_anchors parse_timestamp df r) (σ i) := by
  have hgroup : ∀ s, same_group ((df.with_values values).permute σ) r.group_col i s =
      same_group df r.group_col (σ i) (σ s) := by
    intro s
    cases hcol : r.group_col <;> rfl
  have hvisible : ∀ s, visible (row_dates ((df.with_values values).permute σ) r)
      (row_anchors parse_timestamp ((df.with_values values).permute σ) r) i s =
        visible (row_dates df r) (row_anchors parse_timestamp df r) (σ i) (σ s) := by
    intro s
    rw [row_anchors_permute]
    cases row_anchors parse_timestamp df r <;> rfl
  ext s
  rw [Finset.mem_map_equiv, allowed, allowed, Finset.mem_filter, Finset.mem_filter, hgroup, hvisible,
    Equiv.apply_symm_apply]
  simp

/-- What is appended to the rows of the permuted frame. -/
theorem permuted_row [IsStrictOrderedRing K] {values : String → Fin n → Option K}
    {σ : Perm (Fin n)} (h : time_weighted_aggregate parse_timestamp
      ((df.with_values values).permute σ) r = .ok out) :
    out = ⟨(df.with_values values).permute σ, r.columns.map fun col => (tw_name col, fun i =>
      mean_over r.half_life (row_dates df r) (values col) (AsOf.used (row_dates df r) σ⁻¹
        (r.window.map Int.toNat) (allowed df r.group_col (row_dates df r)
          (row_anchors parse_timestamp df r) (σ i)) (σ i)) (row_dates df r (σ i)))⟩ := by
  rw [time_weighted_aggregate_eq h]
  refine congrArg (Weighted.mk _) (List.map_congr_left fun col _ => ?_)
  refine congrArg (Prod.mk (tw_name col)) (funext fun i => ?_)
  have hmap := AsOf.map_used (row_dates df r) σ (r.window.map Int.toNat)
    (allowed ((df.with_values values).permute σ) r.group_col
      (row_dates ((df.with_values values).permute σ) r)
        (row_anchors parse_timestamp ((df.with_values values).permute σ) r) i) i
  rw [allowed_permute] at hmap
  rw [← hmap]
  show mean_over r.half_life (row_dates df r ∘ σ) (values col ∘ σ) _ (row_dates df r (σ i)) = _
  rw [mean_over_permute]
  rfl

/-! ## The law -/

variable (parse_timestamp df r) in
/-- What the docstring promises of a call, whatever the values: the order of the table does not
matter, nothing of another group or of a later date than the row's or its anchor's does, and a
row gets the mean of the rows it looks back on, weighted from its own date. -/
structure WeightLaw : Prop where
  permuted : ∀ values σ out,
    time_weighted_aggregate parse_timestamp (df.with_values values) r = .ok out →
      time_weighted_aggregate parse_timestamp ((df.with_values values).permute σ) r =
        .ok (out.permute σ)
  unseen : ∀ values values' out out' i,
    time_weighted_aggregate parse_timestamp (df.with_values values) r = .ok out →
      time_weighted_aggregate parse_timestamp (df.with_values values') r = .ok out' →
        (∀ col ∈ r.columns, ∀ s, same_group df r.group_col i s → row_dates df r s ≤ row_dates df r i →
          visible (row_dates df r) (row_anchors parse_timestamp df r) i s →
            values col s = values' col s) → out.row i = out'.row i
  as_of : ∀ values out i,
    time_weighted_aggregate parse_timestamp (df.with_values values) r = .ok out →
      out.row i = r.columns.map fun col => (tw_name col, mean_over r.half_life (row_dates df r)
        (values col) (looks_back parse_timestamp df r i) (row_dates df r i))

variable (parse_timestamp df r) in
/-- No row's window starts or ends between rows of its group that have one date. -/
def AllSettled : Prop :=
  ∀ i, AsOf.Settled (row_dates df r) (r.window.map Int.toNat)
    (allowed df r.group_col (row_dates df r) (row_anchors parse_timestamp df r) i) i

theorem mem_allowed {i s : Fin n} : s ∈ allowed df r.group_col (row_dates df r)
    (row_anchors parse_timestamp df r) i ↔ same_group df r.group_col i s = true ∧
      visible (row_dates df r) (row_anchors parse_timestamp df r) i s = true := by
  rw [allowed, Finset.mem_filter]
  simp

/-- A row that may see another of its date may see itself. -/
theorem mem_allowed_of_tied {i : Fin n} (h : AsOf.Tied (row_dates df r) (allowed df r.group_col
    (row_dates df r) (row_anchors parse_timestamp df r) i) i) :
    i ∈ allowed df r.group_col (row_dates df r) (row_anchors parse_timestamp df r) i := by
  obtain ⟨s, hs, -, hdate⟩ := h
  obtain ⟨-, hvisible⟩ := mem_allowed.mp hs
  refine mem_allowed.mpr ⟨?_, ?_⟩
  · cases hcol : r.group_col <;> simp [same_group]
  · cases hanchors : row_anchors parse_timestamp df r with
    | none => rfl
    | some anchors =>
        rw [hanchors, visible, hdate] at hvisible
        exact hvisible

/-- A mean is determined by the values that it is over. -/
theorem mean_over_congr {hl : HalfLife K} {date : Fin n → Int} {value value' : Fin n → Option K}
    {rows : Finset (Fin n)} (h : ∀ s ∈ rows, value s = value' s) (newest : Int) :
    mean_over hl date value rows newest = mean_over hl date value' rows newest := by
  have hobserved : rows.filter (fun s => (value s).isSome) =
      rows.filter fun s => (value' s).isSome := by
    refine Finset.filter_congr fun s hs => ?_
    rw [h s hs]
  have hnum : ∑ s ∈ rows.filter (fun s => (value' s).isSome), hl.weight (newest - date s) *
      (value s).getD 0 = ∑ s ∈ rows.filter (fun s => (value' s).isSome),
        hl.weight (newest - date s) * (value' s).getD 0 := by
    refine Finset.sum_congr rfl fun s hs => ?_
    rw [h s (Finset.mem_filter.mp hs).1]
  simp only [mean_over, hobserved, hnum]

/-- The rows a row looks back on are of its group, not later, and not behind its anchor. -/
theorem looks_back_le {i s : Fin n} (h : s ∈ looks_back parse_timestamp df r i) :
    same_group df r.group_col i s = true ∧ row_dates df r s ≤ row_dates df r i ∧
      visible (row_dates df r) (row_anchors parse_timestamp df r) i s = true := by
  obtain ⟨hallowed, hplace⟩ := AsOf.mem_upTo.mp (AsOf.last_subset h)
  obtain ⟨hgroup, hvisible⟩ := mem_allowed.mp hallowed
  exact ⟨hgroup, AsOf.date_le_of_place_le hplace, hvisible⟩

theorem row_eq [IsStrictOrderedRing K] {values : String → Fin n → Option K} {i : Fin n}
    (h : time_weighted_aggregate parse_timestamp (df.with_values values) r = .ok out) :
    out.row i = r.columns.map fun col => (tw_name col, mean_over r.half_life (row_dates df r)
      (values col) (looks_back parse_timestamp df r i) (row_dates df r i)) := by
  rw [time_weighted_aggregate_eq h, Weighted.row, List.map_map]
  rfl

/-- Whether a call returns depends on neither the values nor the order of the rows. -/
theorem exists_with_values
    (h : ∃ out, time_weighted_aggregate parse_timestamp df r = .ok out)
    (values : String → Fin n → Option K) :
    ∃ out, time_weighted_aggregate parse_timestamp (df.with_values values) r = .ok out :=
  time_weighted_aggregate_exists h values 1

/-- Settled rows get the same in every order. -/
theorem permute_of_settled [IsStrictOrderedRing K] (h : AllSettled parse_timestamp df r)
    {values : String → Fin n → Option K} {σ : Perm (Fin n)}
    (hout : time_weighted_aggregate parse_timestamp (df.with_values values) r = .ok out) :
    time_weighted_aggregate parse_timestamp ((df.with_values values).permute σ) r =
      .ok (out.permute σ) := by
  obtain ⟨out', hout'⟩ := time_weighted_aggregate_exists ⟨out, hout⟩ values σ
  have hout' : time_weighted_aggregate parse_timestamp ((df.with_values values).permute σ) r =
      .ok out' := hout'
  rw [hout', permuted_row hout', time_weighted_aggregate_eq hout, Weighted.permute, List.map_map]
  refine congrArg (fun tw => Except.ok (Weighted.mk _ tw)) (List.map_congr_left fun col _ => ?_)
  refine congrArg (Prod.mk (tw_name col)) (funext fun i => ?_)
  rw [AsOf.used_of_settled (h (σ i)) mem_allowed_of_tied σ⁻¹ 1]
  rfl

/-- Rows that get the same in every order are settled. -/
theorem settled_of_permute [IsStrictOrderedRing K]
    (hreturns : ∃ out, time_weighted_aggregate parse_timestamp df r = .ok out)
    (h : ∀ values σ out, time_weighted_aggregate parse_timestamp (df.with_values values) r = .ok out →
      time_weighted_aggregate parse_timestamp ((df.with_values values).permute σ) r =
        .ok (out.permute σ)) : AllSettled parse_timestamp df r := by
  obtain ⟨_, hok⟩ := hreturns
  obtain ⟨⟨⟩, hcheck, -⟩ := Checks.bind_eq_ok.mp hok
  obtain ⟨hcolumns, hwindow⟩ := check_request_ok hcheck
  obtain ⟨col, cols, hcols⟩ := List.exists_cons_of_ne_nil hcolumns
  intro i
  refine (AsOf.used_eq_iff hwindow mem_allowed_of_tied).mp fun τ => ?_
  have hmean : ∀ value, mean_over r.half_life (row_dates df r) value (AsOf.used (row_dates df r) τ
        (r.window.map Int.toNat) (allowed df r.group_col (row_dates df r)
          (row_anchors parse_timestamp df r) i) i) (row_dates df r i) =
      mean_over r.half_life (row_dates df r) value (looks_back parse_timestamp df r i)
        (row_dates df r i) := by
    intro value
    obtain ⟨out, hout⟩ := exists_with_values ⟨_, hok⟩ fun _ => value
    have heq := permuted_row (h _ τ⁻¹ _ hout)
    rw [time_weighted_aggregate_eq hout] at heq
    have htw := congrArg Weighted.tw heq
    rw [Weighted.permute, hcols] at htw
    have hcol := congrFun (Prod.mk.inj (List.cons.inj htw).1).2 (τ i)
    rw [inv_inv, Function.comp, Equiv.Perm.inv_def, Equiv.symm_apply_apply] at hcol
    exact hcol.symm
  exact mean_over_inj hmean

/-- On a call that returns, the promises hold exactly when all rows are settled. -/
theorem weight_law_iff [IsStrictOrderedRing K]
    (h : ∃ out, time_weighted_aggregate parse_timestamp df r = .ok out) :
    WeightLaw parse_timestamp df r ↔ AllSettled parse_timestamp df r := by
  refine ⟨fun law => settled_of_permute h law.permuted, fun hsettled => ⟨?_, ?_, ?_⟩⟩
  · intro values σ out hout
    exact permute_of_settled hsettled hout
  · intro values values' out out' i hout hout' hvalues
    rw [row_eq hout, row_eq hout']
    refine List.map_congr_left fun col hcol => ?_
    refine congrArg (Prod.mk (tw_name col)) (mean_over_congr (fun s hs => ?_) _)
    obtain ⟨hgroup, hdate, hvisible⟩ := looks_back_le hs
    exact hvalues col hcol s hgroup hdate hvisible
  · intro values out i hout
    exact row_eq hout

/-- Without a window, no call is refused for its dates. -/
theorem exists_of_no_window {dates : Fin n → Int} {anchors : Option (Fin n → Int)}
    (hcheck : check_request df r = .ok ()) (hdates : all_dates (df.dates r.date_col) = some dates)
    (hanchors : resolve_anchor parse_timestamp df r.anchor = .ok anchors) (hwindow : r.window = none) :
    ∃ out, time_weighted_aggregate parse_timestamp df r = .ok out := by
  have hcolumn : ∀ col ∈ r.columns, ∃ c, (do
      let out ← weigh_column r.half_life (r.window.map Int.toNat) dates anchors
        (partitions df r.group_col) (df.values col)
      return (tw_name col, out) : Except TimeseriesError _) = .ok c := by
    intro col _
    have hparts : ∀ pos ∈ partitions df r.group_col, ∃ written, weigh_partition r.half_life
        (r.window.map Int.toNat) dates anchors (df.values col) pos = .ok written := by
      intro pos _
      rw [hwindow]
      cases anchors with
      | none => exact ⟨_, rfl⟩
      | some anchors => exact ⟨_, rfl⟩
    obtain ⟨written, hwritten⟩ := Checks.mapM_exists hparts
    exact ⟨_, Checks.bind_eq_ok.mpr ⟨_, Checks.bind_eq_ok.mpr ⟨written, hwritten, rfl⟩, rfl⟩⟩
  obtain ⟨tw, htw⟩ := Checks.mapM_exists hcolumn
  by_cases hzero : n = 0
  · exact ⟨_, Checks.bind_eq_ok.mpr ⟨(), hcheck, if_pos hzero⟩⟩
  · refine ⟨⟨df, tw⟩, Checks.bind_eq_ok.mpr ⟨(), hcheck, (if_neg hzero).trans ?_⟩⟩
    rw [hdates]
    exact Checks.bind_eq_ok.mpr ⟨anchors, hanchors, Checks.bind_eq_ok.mpr ⟨tw, htw, rfl⟩⟩

end Aggregate

/-- Half of the weight is lost every nanosecond. -/
def short_life : HalfLife ℚ where
  ns := 1
  ns_pos := one_pos
  weight t := (1 / 2) ^ t
  weight_pos t := zpow_pos (by norm_num) t
  weight_add := zpow_add₀ (by norm_num)
  weight_half := zpow_one _

/-- Two measurements of one subject, on days that are given. -/
def measurements (day : Fin 2 → Int) : Frame 2 Nat String ℚ where
  columns := ["subject", "day", "until", "x"]
  index := fun _ => 7
  keys := fun _ _ => "s"
  dates := fun col i => some (if col = "day" then day i else 9)
  values := fun _ i => some i.val

def per_subject : WeightRequest ℚ where
  columns := ["x"]
  date_col := "day"
  half_life := short_life
  anchor := some (.text "until")
  group_col := some "subject"

theorem measurements_return (day : Fin 2 → Int) :
    ∃ out, time_weighted_aggregate (fun _ => none) (measurements day) per_subject = .ok out := by
  have hdates : all_dates ((measurements day).dates per_subject.date_col) = some day := rfl
  have hanchors : resolve_anchor (fun _ => none) (measurements day) per_subject.anchor =
      .ok (some fun _ => 9) := rfl
  exact exists_of_no_window rfl hdates hanchors rfl

theorem weight_law_two_days :
    WeightLaw (fun _ => none) (measurements ![1, 3]) per_subject := by
  refine (weight_law_iff (measurements_return ![1, 3])).mpr fun i => ?_
  have hdays : ∀ i s : Fin 2, row_dates (measurements ![1, 3]) per_subject s =
      row_dates (measurements ![1, 3]) per_subject i → s = i := by decide
  rintro ⟨s, -, hne, hdate⟩
  exact hne (hdays i s hdate)

/-- Of two measurements of one day, the first does not see the other; exchanged it does. -/
theorem not_weight_law_one_day :
    ¬ WeightLaw (fun _ => none) (measurements ![1, 1]) per_subject := by
  intro law
  have hsettled := settled_of_permute (measurements_return ![1, 1]) law.permuted
  refine hsettled 0 ⟨1, mem_allowed.mpr ⟨by decide, by decide⟩, by decide, by decide⟩

end EmergentFlow.Timeseries
