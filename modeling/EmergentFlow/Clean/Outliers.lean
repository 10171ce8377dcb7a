import Mathlib.Algebra.Order.Ring.WithTop
import EmergentFlow.Lib.Groups
import EmergentFlow.Lib.Quantile

/-!
# Clean — Outliers

`detect_outliers` (`clean/outliers.py`): a fence for each column, a score and a verdict for
each value, and what the three actions make of a frame, as a whole or group by group. Values
and statistics are numbers of a field, a missing value is `none`; the square root is a
parameter.
-/

namespace EmergentFlow.Outliers

variable {ι β K : Type}

/-! ## Rules -/

inductive Method where
  | zscore | modified_zscore | iqr | quantile | percent
  deriving DecidableEq, Repr

/-- `OUTLIER_METHODS`. -/
def Method.of_name : String → Option Method
  | "zscore" => some .zscore
  | "modified_zscore" => some .modified_zscore
  | "iqr" => some .iqr
  | "quantile" => some .quantile
  | "percent" => some .percent
  | _ => none

inductive Combine where
  | any | all
  deriving DecidableEq, Repr

/-- `OUTLIER_COMBINE`. -/
def Combine.of_name : String → Option Combine
  | "any" => some .any
  | "all" => some .all
  | _ => none

inductive Action where
  | flag | drop | clip
  deriving DecidableEq, Repr

inductive OutlierError (K : Type) where
  | unknown_method (method : String)
  | not_positive (method : Method) (threshold : K)
  | not_a_tail (threshold : K)
  | not_a_fraction (threshold : K)
  | unknown_combine (combine : String)
  | unknown_action (action : String)
  | drop_incompatible (action : String)
  | unknown_group_columns (columns : List String)
  | unknown_columns (columns : List String)
  | not_numeric (columns : List String)
  | column_collision (columns : List String)
  deriving DecidableEq, Repr

/-- The literal 2 of a field. -/
local instance two : Nat.AtLeastTwo 2 := ⟨Nat.le_refl 2⟩

section Check

variable [Field K] [LinearOrder K]

/-- `check_outlier_rule`: what the threshold of a method may be. -/
def check_outlier_rule (method : String) (threshold : K) : Except (OutlierError K) Method :=
  match Method.of_name method with
  | none => .error (.unknown_method method)
  | some .quantile =>
      if 0 < threshold ∧ threshold < 1 / 2 then .ok .quantile else .error (.not_a_tail threshold)
  | some .percent =>
      if 0 < threshold ∧ threshold < 1 then .ok .percent else .error (.not_a_fraction threshold)
  | some method => if threshold ≤ 0 then .error (.not_positive method threshold) else .ok method

end Check

/-! ## Fences -/

section Fence

variable [Field K] [LinearOrder K] (sqrt : K → K)

def mean (values : List K) : Option K :=
  if values = [] then none else some (values.sum / values.length)

/-- `std`, of the sample: there is none of a single value. -/
def std (values : List K) : Option K := do
  let mean ← mean values
  if values.length < 2 then none
  else some (sqrt ((values.map fun x => (x - mean) ^ 2).sum / (values.length - 1)))

/-- `_MAD_SCALE`. -/
def MAD_SCALE : K := 6744897501960817 / 10000000000000000

/-- How far the values are from a centre. -/
def distances (centre : K) (values : List K) : List K := values.map fun x => |x - centre|

/-- The fence around a centre. With no spread it is a single point. -/
def around (centre : K) (spread : Option K) (delta : K → K) : K × K :=
  match spread with
  | none => (centre, centre)
  | some spread =>
      if spread = 0 then (centre, centre) else (centre - delta spread, centre + delta spread)

/-- `outlier_bounds`. Without a value both bounds are missing. -/
def outlier_bounds (method : Method) (threshold : K) (series : List (Option K)) :
    Option (K × K) :=
  let values := series.reduceOption
  match method with
  | .zscore => do
      let mean ← mean values
      return around mean (std sqrt values) (threshold * ·)
  | .modified_zscore => do
      let median ← Quantile.median values
      return around median (Quantile.median (distances median values)) (threshold * · / MAD_SCALE)
  | .iqr => do
      let p25 ← Quantile.quantile values (1 / 4)
      let p75 ← Quantile.quantile values (3 / 4)
      let iqr := p75 - p25
      if iqr = 0 then return (p25, p75)
      else return (p25 - threshold * iqr, p75 + threshold * iqr)
  | .quantile => do
      let lower ← Quantile.quantile values threshold
      let upper ← Quantile.quantile values (1 - threshold)
      return (lower, upper)
  | .percent => do
      let median ← Quantile.median values
      return around median (Quantile.quantile (distances median values) (1 - threshold)) id

/-- One side of `_deviation`: how many half-widths of the fence a distance is. -/
def side (distance width : K) : Option (WithTop K) :=
  if 0 < width then some ↑(distance / width)
  else if width = 0 then some ⊤
  else none

/-- `_deviation` of one value. -/
def deviation (fence : Option (K × K)) (value : Option K) : Option (WithTop K) := do
  let (lower, upper) ← fence
  let value ← value
  let centre := (lower + upper) / 2
  if value = centre then some 0
  else if centre < value then side |value - centre| (upper - centre)
  else side |value - centre| (centre - lower)

/-- The comparison with the bounds, which fails where one side is missing. -/
def outside (fence : Option (K × K)) (value : Option K) : Bool :=
  match fence, value with
  | some (lower, upper), some value => value < lower || upper < value
  | _, _ => false

/-- `clip` of one value. -/
def nearest (fence : Option (K × K)) (value : K) : K :=
  match fence with
  | none => value
  | some (lower, upper) =>
      if value < lower then lower else if upper < value then upper else value

end Fence

/-! ## Frames -/

inductive Kind where
  | numeric | boolean | other
  deriving DecidableEq, Repr

inductive Cell (K β : Type) where
  | missing
  | number (x : K)
  | other (b : β)
  deriving DecidableEq, Repr

/-- The cell as a `float64`. -/
def Cell.value : Cell K β → Option K
  | .number x => some x
  | _ => none

/-- A row: its label in the index, which another row may have too, and its cells. -/
structure Row (ι K β : Type) where
  index : ι
  cells : String → Cell K β

structure Frame (ι K β : Type) where
  columns : List (String × Kind)
  rows : List (Row ι K β)

def Row.value (row : Row ι K β) (col : String) : Option K := (row.cells col).value

/-- What a row is grouped by. A missing key is a key. -/
def Row.key (by_cols : List String) (row : Row ι K β) : List (Cell K β) := by_cols.map row.cells

/-- A row of a result, with the flag and the score where these columns were added. -/
structure Detected (ι K β : Type) where
  row : Row ι K β
  added : Option (Bool × Option (WithTop K))

/-! ## The request -/

/-- The arguments besides the frame. -/
structure DetectRequest (K : Type) where
  columns : Option (List String) := none
  method : String := "zscore"
  threshold : K
  combine : String := "any"
  flag_column : String := "is_outlier"
  score_column : String := "outlier_score"
  drop : Bool := false
  action : String := "flag"
  by_cols : List String := []

/-- What the checks leave of a request. -/
structure Plan (K : Type) where
  target : List String
  method : Method
  threshold : K
  combine : Combine
  action : Action
  deriving DecidableEq

/-- `is_outlier_eligible`, of a column of the frame. -/
def is_outlier_eligible (columns : List (String × Kind)) (col : String) : Bool :=
  columns.lookup col = some .numeric

/-- The action of a request: `drop` is the older spelling of one. -/
def DetectRequest.effective_action (r : DetectRequest K) : Except (OutlierError K) Action :=
  match r.action with
  | "flag" => .ok (if r.drop then .drop else .flag)
  | "drop" => .ok .drop
  | "clip" => if r.drop then .error (.drop_incompatible "clip") else .ok .clip
  | action => .error (.unknown_action action)

/-- The columns that are measured: never one that is grouped by. -/
def DetectRequest.target (r : DetectRequest K) (columns : List (String × Kind)) :
    Except (OutlierError K) (List String) :=
  let names := columns.map Prod.fst
  match r.columns with
  | none => .ok (names.filter fun c => is_outlier_eligible columns c ∧ c ∉ r.by_cols)
  | some given => do
      let unknown := given.filter (· ∉ names)
      if unknown ≠ [] then throw (.unknown_columns unknown)
      let measured := given.filter (· ∉ r.by_cols)
      let ineligible := measured.filter fun c => ¬ is_outlier_eligible columns c
      if ineligible ≠ [] then throw (.not_numeric ineligible)
      return measured

section Detect

variable [Field K] [LinearOrder K]

def check_request (columns : List (String × Kind)) (r : DetectRequest K) :
    Except (OutlierError K) (Plan K) := do
  let names := columns.map Prod.fst
  let method ← check_outlier_rule r.method r.threshold
  let some combine := Combine.of_name r.combine | throw (.unknown_combine r.combine)
  let action ← r.effective_action
  let unknown_by := r.by_cols.filter (· ∉ names)
  if unknown_by ≠ [] then throw (.unknown_group_columns unknown_by)
  let target ← r.target columns
  let collisions := [r.flag_column, r.score_column].filter (· ∈ names)
  if action = .flag ∧ collisions ≠ [] then throw (.column_collision collisions)
  return { target, method, threshold := r.threshold, combine, action }

variable (sqrt : K → K)

/-- The fence of a column, among some rows. -/
def Plan.fence (plan : Plan K) (rows : List (Row ι K β)) (col : String) : Option (K × K) :=
  outlier_bounds sqrt plan.method plan.threshold (rows.map (·.value col))

/-- The flag of a row. Where nothing is measured, nothing is flagged. -/
def Plan.is_outlier (plan : Plan K) (rows : List (Row ι K β)) (row : Row ι K β) : Bool :=
  let flag := fun col => outside (plan.fence sqrt rows col) (row.value col)
  if plan.target = [] then false
  else
    match plan.combine with
    | .any => plan.target.any flag
    | .all => plan.target.all flag

/-- The score of a row: the greatest of the columns that have a value. -/
def Plan.score (plan : Plan K) (rows : List (Row ι K β)) (row : Row ι K β) : Option (WithTop K) :=
  (plan.target.filterMap fun col =>
    deviation (plan.fence sqrt rows col) (row.value col)).max?

def Plan.clip_cell (plan : Plan K) (rows : List (Row ι K β)) (col : String) :
    Cell K β → Cell K β
  | .number x => .number (nearest (plan.fence sqrt rows col) x)
  | cell => cell

def Plan.clip (plan : Plan K) (rows : List (Row ι K β)) (row : Row ι K β) : Row ι K β where
  index := row.index
  cells col :=
    if col ∈ plan.target then plan.clip_cell sqrt rows col (row.cells col) else row.cells col

/-- The rows without a grouping. -/
def Plan.apply (plan : Plan K) (rows : List (Row ι K β)) : List (Detected ι K β) :=
  match plan.action with
  | .flag => rows.map fun row =>
      ⟨row, some (plan.is_outlier sqrt rows row, plan.score sqrt rows row)⟩
  | .drop => (rows.filter fun row => !plan.is_outlier sqrt rows row).map (⟨·, none⟩)
  | .clip => rows.map fun row => ⟨plan.clip sqrt rows row, none⟩

/-- `detect_outliers` with no group columns. With nothing to measure, an action that adds no
column returns a copy. -/
def detect_ungrouped (df : Frame ι K β) (r : DetectRequest K) :
    Except (OutlierError K) (List (Detected ι K β)) := do
  let plan ← check_request df.columns r
  if plan.action ≠ .flag ∧ plan.target = [] then return df.rows.map (⟨·, none⟩)
  return plan.apply sqrt df.rows

variable [DecidableEq β]

/-- `detect_outliers`. The rows of a group are labelled with their positions, by which the parts
are sorted in the end; then they get their labels back. -/
def detect_outliers (df : Frame ι K β) (r : DetectRequest K) :
    Except (OutlierError K) (List (Detected ι K β)) := do
  let plan ← check_request df.columns r
  if plan.action ≠ .flag ∧ plan.target = [] then return df.rows.map (⟨·, none⟩)
  if r.by_cols = [] then return plan.apply sqrt df.rows
  -- a group forgets the index of the frame, so the rows carry their place through it
  let positioned : List (Row Nat K β) := df.rows.zipIdx.map fun (row, i) => { row with index := i }
  let parts ← (Groups.groups (fun row => some (row.key r.by_cols)) positioned).mapM fun sub =>
    detect_ungrouped sqrt { columns := df.columns, rows := sub }
      { r with columns := some plan.target, by_cols := [] }
  let out := parts.flatten.mergeSort fun a b => a.row.index ≤ b.row.index
  return out.filterMap fun d => (df.rows[d.row.index]?).map fun row =>
    { d with row := { d.row with index := row.index } }

end Detect

end EmergentFlow.Outliers
