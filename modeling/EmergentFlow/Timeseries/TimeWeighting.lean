import Mathlib.Algebra.Field.Basic
import Mathlib.Algebra.Group.End
import Mathlib.Algebra.Order.Ring.Defs
import EmergentFlow.Lib.Checks
import EmergentFlow.Lib.Groups

/-!
# Timeseries — Time Weighting

The date-aware mode of `time_weighted_aggregate` (`timeseries/__init__.py`). A frame is a
record of arrays over the positions of its rows; dates are nanoseconds in UTC, a missing date
or value is `none`, and weights are exact. The half-life has passed its own checks; how a
text is parsed as a timestamp is a parameter.
-/

namespace EmergentFlow.Timeseries

open Equiv (Perm)

variable {n : Nat} {ι γ K : Type}

/-- A half-life: its length, and the weight `0.5 ** (elapsed / half_life)` of what has elapsed. -/
structure HalfLife (K : Type) [Field K] [LinearOrder K] where
  ns : Int
  ns_pos : 0 < ns
  weight : Int → K
  weight_pos : ∀ t, 0 < weight t
  weight_add : ∀ s t, weight (s + t) = weight s * weight t
  weight_half : weight ns = 1 / 2

/-- The columns of a frame, by the type that they are read at. -/
structure Frame (n : Nat) (ι γ K : Type) where
  columns : List String
  index : Fin n → ι
  keys : String → Fin n → γ
  dates : String → Fin n → Option Int
  values : String → Fin n → Option K

/-- The frame with its rows in another order. -/
def Frame.permute (df : Frame n ι γ K) (σ : Perm (Fin n)) : Frame n ι γ K where
  columns := df.columns
  index := df.index ∘ σ
  keys col := df.keys col ∘ σ
  dates col := df.dates col ∘ σ
  values col := df.values col ∘ σ

/-- `anchor`: a text names a column or is a timestamp. -/
inductive Anchor where
  | text (s : String)
  | timestamp (t : Int)
  deriving DecidableEq, Repr

inductive TimeseriesError where
  | no_columns
  | unknown_columns (columns : List String)
  | unknown_date_col (column : String)
  | unknown_decay (decay : String)
  | bad_window (window : Int)
  | unknown_group_col (column : String)
  | collisions (columns : List String)
  | missing_dates (date_col : String)
  | bad_anchor (anchor : String)
  | missing_anchors (anchor : String)
  | span_too_wide (elapsed : Int)
  deriving DecidableEq, Repr

/-- The arguments besides the frame. -/
structure WeightRequest (K : Type) [Field K] [LinearOrder K] where
  columns : List String
  date_col : String
  decay : String := "linear"
  window : Option Int := none
  half_life : HalfLife K
  anchor : Option Anchor := none
  group_col : Option String := none

/-- The result: a copy of the frame, and the columns that are appended. -/
structure Weighted (n : Nat) (ι γ K : Type) where
  frame : Frame n ι γ K
  tw : List (String × (Fin n → Option K))

/-- What is appended to a row. -/
def Weighted.row (out : Weighted n ι γ K) (i : Fin n) : List (String × Option K) :=
  out.tw.map fun c => (c.1, c.2 i)

def Weighted.permute (out : Weighted n ι γ K) (σ : Perm (Fin n)) : Weighted n ι γ K where
  frame := out.frame.permute σ
  tw := out.tw.map fun c => (c.1, c.2 ∘ σ)

/-! ## The weighted mean -/

section Mean

variable [Field K] [LinearOrder K] (hl : HalfLife K)

/-- The mean of the observed values, weighted by what has elapsed until an instant. -/
def mean_from (newest : Int) (rows : List (Int × Option K)) : Option K :=
  let observed := rows.filterMap fun r => r.2.map (r.1, ·)
  let num := (observed.map fun r => hl.weight (newest - r.1) * r.2).sum
  let den := (observed.map fun r => hl.weight (newest - r.1)).sum
  if 0 < den then some (num / den) else none

/-- The mean of a window, seen from its newest row. -/
def window_mean (rows : List (Int × Option K)) : Option K :=
  rows.getLast?.bind fun newest => mean_from hl newest.1 rows

/-- `_MAX_HALF_LIVES`. -/
def MAX_HALF_LIVES : Int := 1000

/-- `sliding_window_view`. -/
def sliding_windows {α : Type} (l : List α) (window : Nat) : List (List α) :=
  (List.range (l.length + 1 - window)).map fun k => (l.drop k).take window

/-- What has elapsed in a window since each of its rows. -/
def elapsed (window : List (Int × Option K)) : List Int :=
  (window.getLast?.map fun newest => window.map fun r => newest.1 - r.1).getD []

/-- `_date_weighted_mean`, of rows in the order of their dates. Without a window the mean of each
row is that of the rows up to it. -/
def date_weighted_mean (window : Option Nat) (rows : List (Int × Option K)) :
    Except TimeseriesError (List (Option K)) :=
  match window with
  | none => .ok ((List.range rows.length).map fun j => window_mean hl (rows.take (j + 1)))
  | some window =>
      if rows.length < window then .ok (rows.map fun _ => none)
      else
        let windows := sliding_windows rows window
        let span := (windows.flatMap elapsed).max?.getD 0
        if MAX_HALF_LIVES * hl.ns < span then .error (.span_too_wide span)
        else .ok (List.replicate (window - 1) none ++ windows.map (window_mean hl))

end Mean

/-! ## The aggregate -/

section Aggregate

variable [Field K] [LinearOrder K]

/-- `searchsorted(side="right")`: how many of the sorted dates are not after one. -/
def searchsorted_right (dates : List Int) (anchor : Int) : Nat := dates.countP (· ≤ anchor)

/-- What is computed for the rows of a partition. -/
def weigh_partition (hl : HalfLife K) (window : Option Nat) (dates : Fin n → Int)
    (anchors : Option (Fin n → Int)) (values : Fin n → Option K) (pos : List (Fin n)) :
    Except TimeseriesError (List (Fin n × Option K)) := do
  let p := pos.mergeSort fun a b => dates a ≤ dates b
  let base ← date_weighted_mean hl window (p.map fun r => (dates r, values r))
  match anchors with
  | none => return p.zip base
  | some anchors => return p.zipIdx.map fun (r, k) =>
      let last_ok : Int := (searchsorted_right (p.map dates) (anchors r) : Int) - 1
      let take := min last_ok k
      (r, if 0 ≤ take then (base[take.toNat]?).join else none)

/-- The positions of the rows of each group, or of all rows. -/
def partitions [DecidableEq γ] (df : Frame n ι γ K) (group_col : Option String) :
    List (List (Fin n)) :=
  match group_col with
  | none => [List.finRange n]
  | some col => Groups.groups (fun i => some (df.keys col i)) (List.finRange n)

/-- What is computed for a column, scattered to the positions of the rows. -/
def weigh_column (hl : HalfLife K) (window : Option Nat) (dates : Fin n → Int)
    (anchors : Option (Fin n → Int)) (parts : List (List (Fin n))) (values : Fin n → Option K) :
    Except TimeseriesError (Fin n → Option K) := do
  let written ← parts.mapM (weigh_partition hl window dates anchors values)
  return fun i => (written.flatten.lookup i).join

/-- The dates of a column, if none is missing. -/
def all_dates (col : Fin n → Option Int) : Option (Fin n → Int) :=
  if ∀ i, (col i).isSome then some fun i => (col i).getD 0 else none

/-- `_resolve_anchor`, and the check for missing anchors. -/
def resolve_anchor (parse_timestamp : String → Option Int) (df : Frame n ι γ K) :
    Option Anchor → Except TimeseriesError (Option (Fin n → Int))
  | none => .ok none
  | some (.timestamp t) => .ok (some fun _ => t)
  | some (.text s) =>
      -- a text that names a column is that column, even if it could be read as a time
      if s ∈ df.columns then
        match all_dates (df.dates s) with
        | none => .error (.missing_anchors s)
        | some anchors => .ok (some anchors)
      else
        match parse_timestamp s with
        | none => .error (.bad_anchor s)
        | some t => .ok (some fun _ => t)

def tw_name (col : String) : String := col ++ "_tw_halflife"

/-- The checks of `time_weighted_aggregate` on the names. -/
def check_request (df : Frame n ι γ K) (r : WeightRequest K) : Except TimeseriesError Unit := do
  Checks.guard (r.columns ≠ []) .no_columns
  let unknown := r.columns.filter (· ∉ df.columns)
  Checks.guard (unknown = []) (.unknown_columns unknown)
  Checks.guard (r.date_col ∈ df.columns) (.unknown_date_col r.date_col)
  Checks.guard (r.decay ∈ ["linear", "exponential"]) (.unknown_decay r.decay)
  r.window.toList.forM fun window => Checks.guard (1 ≤ window) (.bad_window window)
  r.group_col.toList.forM fun col => Checks.guard (col ∈ df.columns) (.unknown_group_col col)
  let collisions := (r.columns.map tw_name).filter (· ∈ df.columns)
  Checks.guard (collisions = []) (.collisions collisions)

/-- `time_weighted_aggregate` with a half-life, and `_date_weighted_aggregate`. -/
def time_weighted_aggregate [DecidableEq γ] (parse_timestamp : String → Option Int)
    (df : Frame n ι γ K) (r : WeightRequest K) : Except TimeseriesError (Weighted n ι γ K) := do
  check_request df r
  if n = 0 then return ⟨df, r.columns.map fun col => (tw_name col, fun _ => none)⟩
  let some dates := all_dates (df.dates r.date_col) | throw (.missing_dates r.date_col)
  let anchors ← resolve_anchor parse_timestamp df r.anchor
  let tw ← r.columns.mapM fun col => do
    let out ← weigh_column r.half_life (r.window.map Int.toNat) dates anchors
      (partitions df r.group_col) (df.values col)
    return (tw_name col, out)
  return ⟨df, tw⟩

end Aggregate

end EmergentFlow.Timeseries
