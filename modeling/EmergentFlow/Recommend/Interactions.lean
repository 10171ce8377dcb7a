import Mathlib.Algebra.BigOperators.Group.List.Basic
import Mathlib.Algebra.Order.Field.Basic
import Mathlib.Data.Finset.Card
import Mathlib.Data.Finset.Lattice.Basic
import Mathlib.Data.List.ProdSigma
import Mathlib.Data.Prod.Lex

/-!
# Recommend — Interactions

The gate of the recommender family (`recommend/interactions.py`): the events of a frame
are aggregated by user and item, those of users and items with too few interactions are
dropped until none is left, and the rest becomes a matrix. Numbers are exact.

An id column may be categorical. Then `groupby` has a group for every category and
`value_counts` a count, of zero too, so that the loop of drops need not end: it runs on fuel.
-/

namespace EmergentFlow.Recommend

variable {U I K : Type}

/-! ## Columns -/

/-- The dtype of an id column. -/
inductive Column (κ : Type) where
  | plain
  | categorical (categories : List κ) (distinct : categories.Nodup)
  deriving DecidableEq

namespace Column

variable {κ : Type}

def categories : Column κ → List κ
  | plain => []
  | categorical categories _ => categories

/-- An id that the column can have. -/
def Holds : Column κ → κ → Prop
  | plain, _ => True
  | categorical categories _, id => id ∈ categories

instance [DecidableEq κ] (column : Column κ) (id : κ) : Decidable (column.Holds id) :=
  match column with
  | plain => isTrue trivial
  | categorical categories _ => inferInstanceAs (Decidable (id ∈ categories))

/-- The index of `value_counts`. -/
def index [DecidableEq κ] : Column κ → List κ → List κ
  | plain, ids => ids.dedup
  | categorical categories _, _ => categories

/-- The level of a `groupby` that has a categorical column. -/
def level [LinearOrder κ] : Column κ → List κ → List κ
  | plain, ids => ids.dedup.mergeSort
  | categorical categories _, _ => categories

theorem holds_of_mem_level [LinearOrder κ] {column : Column κ} {ids : List κ} {id : κ}
    (h : id ∈ column.level ids) : column.Holds id := by
  cases column with
  | plain => trivial
  | categorical categories distinct => exact h

theorem mem_index [DecidableEq κ] {column : Column κ} {ids : List κ} {id : κ}
    (hids : ∀ id ∈ ids, column.Holds id) :
    id ∈ column.index ids ↔ id ∈ ids ∨ id ∈ column.categories := by
  cases column with
  | plain => simp [index, categories]
  | categorical cats distinct =>
      simp only [index, categories]
      exact ⟨Or.inr, fun h => h.elim (hids id) fun h => h⟩

end Column

/-! ## Rows -/

/-- A row of the frame, read at the columns of a request; what is missing is `none`. -/
structure Event (U I K : Type) where
  user : Option U
  item : Option I
  value : Option K
  deriving DecidableEq

/-- The frame, read at the columns of a request. -/
structure Frame (U I K : Type) where
  users : Column U
  items : Column I
  events : List (Event U I K)
  users_hold : ∀ e ∈ events, ∀ user ∈ e.user, users.Holds user
  items_hold : ∀ e ∈ events, ∀ item ∈ e.item, items.Holds item

/-- A row after aggregation. -/
structure Interaction (U I K : Type) where
  user : U
  item : I
  value : Option K
  deriving DecidableEq

/-- The rows after aggregation, under the dtypes of the frame. -/
structure Table (U I K : Type) where
  users : Column U
  items : Column I
  rows : List (Interaction U I K)
  users_hold : ∀ row ∈ rows, users.Holds row.user
  items_hold : ∀ row ∈ rows, items.Holds row.item

/-- A part of the rows has the dtypes of the table. -/
def Table.filter (p : Interaction U I K → Bool) (table : Table U I K) : Table U I K where
  users := table.users
  items := table.items
  rows := table.rows.filter p
  users_hold row hrow := table.users_hold row (List.mem_of_mem_filter hrow)
  items_hold row hrow := table.items_hold row (List.mem_of_mem_filter hrow)

@[simp] theorem Table.filter_users (p : Interaction U I K → Bool) (table : Table U I K) :
    (table.filter p).users = table.users := rfl

@[simp] theorem Table.filter_items (p : Interaction U I K → Bool) (table : Table U I K) :
    (table.filter p).items = table.items := rfl

@[simp] theorem Table.filter_rows (p : Interaction U I K → Bool) (table : Table U I K) :
    (table.filter p).rows = table.rows.filter p := rfl

inductive Agg where
  | sum
  | mean
  | max
  | last
  deriving DecidableEq, Repr

/-- The pandas aggregations pass over missing values. -/
def Agg.apply [Field K] [LinearOrder K] (agg : Agg) (values : List (Option K)) : Option K :=
  let present := values.filterMap id
  match agg with
  | .sum => some present.sum
  | .mean => if present = [] then none else some (present.sum / present.length)
  | .max => present.max?
  | .last => present.getLast?

/-- The events with both ids. `groupby` drops the others. -/
def present (events : List (Event U I K)) : List ((U × I) × Option K) :=
  events.filterMap fun e => e.user.bind fun user => e.item.map fun item => ((user, item), e.value)

section Aggregate

variable [LinearOrder U] [LinearOrder I]

/-- The groups of `groupby([user_col, item_col])`: the pairs that occur, by ascending ids, or
with a categorical column every pair of the two levels. -/
def group_keys (frame : Frame U I K) : List (U × I) :=
  match frame.users, frame.items with
  | .plain, .plain =>
      ((present frame.events).map Prod.fst).dedup.mergeSort fun a b => toLex a ≤ toLex b
  | users, items =>
      (users.level (frame.events.filterMap (·.user))).product
        (items.level (frame.events.filterMap (·.item)))

theorem group_keys_hold {frame : Frame U I K} {key : U × I} (h : key ∈ group_keys frame) :
    frame.users.Holds key.1 ∧ frame.items.Holds key.2 := by
  rw [group_keys] at h
  split at h
  · next husers hitems =>
      rw [husers, hitems]
      exact ⟨trivial, trivial⟩
  · have hlevels := List.mem_product.mp h
    exact ⟨Column.holds_of_mem_level hlevels.1, Column.holds_of_mem_level hlevels.2⟩

variable [Field K] [LinearOrder K]

/-- The row of a group. Without a column of values its events are counted. -/
def group_row (agg : Option Agg) (events : List (Event U I K)) (key : U × I) :
    Interaction U I K :=
  let values := ((present events).filter (·.1 = key)).map Prod.snd
  { user := key.1
    item := key.2
    value := match agg with
      | some agg => agg.apply values
      | none => some values.length }

def aggregate (agg : Option Agg) (frame : Frame U I K) : Table U I K where
  users := frame.users
  items := frame.items
  rows := (group_keys frame).map (group_row agg frame.events)
  users_hold row hrow := by
    obtain ⟨key, hkey, rfl⟩ := List.mem_map.mp hrow
    exact (group_keys_hold hkey).1
  items_hold row hrow := by
    obtain ⟨key, hkey, rfl⟩ := List.mem_map.mp hrow
    exact (group_keys_hold hkey).2

end Aggregate

/-! ## The filter -/

section Filter

variable {κ : Type} [DecidableEq κ]

/-- How often a key occurs (`value_counts`). -/
def count_of (key : Interaction U I K → κ) (rows : List (Interaction U I K)) (k : κ) : Int :=
  (rows.map key).count k

/-- The counted keys that occur less often than asked for. -/
def low_keys (column : Column κ) (key : Interaction U I K → κ) (least : Int)
    (rows : List (Interaction U I K)) : List κ :=
  (column.index (rows.map key)).filter fun k => count_of key rows k < least

/-- `deduped[~deduped[col].isin(low.index)]`. -/
def drop_keys (key : Interaction U I K → κ) (low : List κ) (table : Table U I K) :
    Table U I K :=
  if low = [] then table else table.filter (key · ∉ low)

end Filter

variable [DecidableEq U] [DecidableEq I]

def low_users (min_user : Int) (table : Table U I K) : List U :=
  low_keys table.users (·.user) min_user table.rows

def low_items (min_item : Int) (table : Table U I K) : List I :=
  low_keys table.items (·.item) min_item table.rows

/-- What the loop has left and dropped. -/
structure Filtered (U I K : Type) where
  table : Table U I K
  dropped_users : Finset U := ∅
  dropped_items : Finset I := ∅

/-- One round: both lists are made before either drop. -/
def filter_round (min_user min_item : Int) (table : Table U I K) : Table U I K :=
  drop_keys (·.user) (low_users min_user table)
    (drop_keys (·.item) (low_items min_item table) table)

/-- The loop of `cold_start_mode="warn-and-skip"`. -/
def filter_loop (min_user min_item : Int) : Nat → Filtered U I K → Option (Filtered U I K)
  | 0, _ => none
  | fuel + 1, st =>
      let low_items := low_items min_item st.table
      let low_users := low_users min_user st.table
      if low_items = [] ∧ low_users = [] then some st
      else
        filter_loop min_user min_item fuel
          { table := filter_round min_user min_item st.table
            dropped_users := st.dropped_users ∪ low_users.toFinset
            dropped_items := st.dropped_items ∪ low_items.toFinset }

/-! ## The gate -/

inductive ColdStart where
  | error
  | warn_and_skip
  | include_
  deriving DecidableEq, Repr

/-- How many users and items an error or a warning is about. -/
structure TooFew where
  users : Nat
  items : Nat
  deriving DecidableEq, Repr

/-- The warning about what was dropped. -/
def Filtered.warning (st : Filtered U I K) : Option TooFew :=
  let dropped : TooFew := {
    users := st.dropped_users.card
    items := st.dropped_items.card }
  if dropped.users ≠ 0 ∨ dropped.items ≠ 0 then some dropped else none

/-- The rows that the matrix is made of, and the warning that is given. -/
def cold_start (fuel : Nat) (mode : ColdStart) (min_user min_item : Int) (table : Table U I K) :
    Option (Except TooFew (Table U I K × Option TooFew)) :=
  if 0 < min_user ∨ 0 < min_item then
    match mode with
    | .error =>
        let low : TooFew := {
          users := (low_users min_user table).length
          items := (low_items min_item table).length }
        some (if low.items ≠ 0 ∨ low.users ≠ 0 then .error low else .ok (table, none))
    | .warn_and_skip =>
        (filter_loop min_user min_item fuel { table }).map fun st => .ok (st.table, st.warning)
    | .include_ => some (.ok (table, none))
  else some (.ok (table, none))

/-- The matrix in coordinates, with the ids of its rows and columns. -/
structure InteractionMatrix (U I K : Type) where
  user_ids : List U
  item_ids : List I
  entries : List (Nat × Nat × Option K)
  implicit : Bool
  deriving DecidableEq

def from_dataframe [LinearOrder U] [LinearOrder I] (is_implicit : Bool)
    (rows : List (Interaction U I K)) : InteractionMatrix U I K :=
  let user_ids := (rows.map (·.user)).dedup.mergeSort
  let item_ids := (rows.map (·.item)).dedup.mergeSort
  { user_ids
    item_ids
    entries := rows.map fun row => (user_ids.idxOf row.user, item_ids.idxOf row.item, row.value)
    implicit := is_implicit }

/-- The arguments of `_prepare_interactions` besides the frame. -/
structure Request where
  user_col : String
  item_col : String
  value_col : Option String := none
  implicit : Bool := true
  agg : String := "sum"
  min_user_interactions : Int := 0
  min_item_interactions : Int := 0
  cold_start_mode : String := "warn-and-skip"

inductive InvalidParams (K : Type) where
  | unknown_column (col : String) (available : List String)
  | invalid_agg (agg : String)
  | invalid_cold_start_mode (mode : String)
  | cold_start (few : TooFew)
  | invalid_test_ratio (ratio : K)
  deriving DecidableEq

def Agg.read : String → Option Agg
  | "sum" => some .sum
  | "mean" => some .mean
  | "max" => some .max
  | "last" => some .last
  | _ => none

def ColdStart.read : String → Option ColdStart
  | "error" => some .error
  | "warn-and-skip" => some .warn_and_skip
  | "include" => some .include_
  | _ => none

def check_column (columns : List String) (col : String) : Except (InvalidParams K) Unit :=
  if col ∈ columns then .ok () else .error (.unknown_column col (columns.mergeSort))

/-- The checks of the arguments. -/
def check_request (columns : List String) (request : Request) :
    Except (InvalidParams K) (Agg × ColdStart) := do
  check_column columns request.user_col
  check_column columns request.item_col
  if let some value_col := request.value_col then check_column columns value_col
  let some agg := Agg.read request.agg | .error (.invalid_agg request.agg)
  let some mode := ColdStart.read request.cold_start_mode
    | .error (.invalid_cold_start_mode request.cold_start_mode)
  return (agg, mode)

/-- `_prepare_interactions`, with the warning it gives. -/
def prepare_interactions [LinearOrder U] [LinearOrder I] [Field K] [LinearOrder K] (fuel : Nat)
    (columns : List String) (request : Request) (frame : Frame U I K) :
    ExceptT (InvalidParams K) Option (InteractionMatrix U I K × Option TooFew) := do
  let (agg, mode) ← (check_request columns request : Except (InvalidParams K) _)
  let deduped := aggregate (request.value_col.map fun _ => agg) frame
  let filtered ← cold_start fuel mode request.min_user_interactions
    request.min_item_interactions deduped
  let (table, warning) ← filtered.mapError (InvalidParams.cold_start (K := K))
  return (from_dataframe request.implicit table.rows, warning)

end EmergentFlow.Recommend
