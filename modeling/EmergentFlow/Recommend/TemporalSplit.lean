import Mathlib.Algebra.Field.Rat
import Mathlib.Algebra.Order.Floor.Ring
import Mathlib.Algebra.Order.Round
import Mathlib.Data.Rat.Floor
import Mathlib.Order.WithBot
import Mathlib.Tactic.Linarith
import EmergentFlow.Lib.Groups
import EmergentFlow.Lib.StableSort
import EmergentFlow.Recommend.Interactions

/-!
# Recommend — Temporal Split

`temporal_split` (`recommend/__init__.py`): of every user the last part of the events goes to
the test half, the rest to the train half. Timestamps are any ordered type, and the
product of a size and the ratio is exact.
-/

namespace EmergentFlow.Recommend

variable {U I T K : Type}

/-- An event at a time. A missing time is sorted behind the others. -/
structure TimedEvent (U I T K : Type) extends Event U I K where
  timestamp : WithTop T
  deriving DecidableEq

/-- The frame, read at the columns of a request. -/
structure TimedFrame (U I T K : Type) where
  users : Column U
  items : Column I
  events : List (TimedEvent U I T K)
  users_hold : ∀ e ∈ events, ∀ user ∈ e.user, users.Holds user
  items_hold : ∀ e ∈ events, ∀ item ∈ e.item, items.Holds item

/-- A part of the events has the dtypes of the frame. -/
def TimedFrame.part (frame : TimedFrame U I T K) (part : List (TimedEvent U I T K))
    (hpart : part ⊆ frame.events) : Frame U I K where
  users := frame.users
  items := frame.items
  events := part.map (·.toEvent)
  users_hold := List.forall_mem_map.mpr fun e he => frame.users_hold e (hpart he)
  items_hold := List.forall_mem_map.mpr fun e he => frame.items_hold e (hpart he)

/-- The literal 2 of a field. -/
local instance two : Nat.AtLeastTwo 2 := ⟨Nat.le_refl 2⟩

section Split

variable [DecidableEq U] [LinearOrder T] [Field K] [LinearOrder K] [FloorRing K]

/-- `round`: to the nearest integer, at the midpoint to the even one. -/
def round_half_even (x : K) : Int :=
  if x - ⌊x⌋ < 1 / 2 then ⌊x⌋
  else if 1 / 2 < x - ⌊x⌋ then ⌊x⌋ + 1
  else if ⌊x⌋ % 2 = 0 then ⌊x⌋
  else ⌊x⌋ + 1

/-- How many of `n` events are held out. -/
def n_test (test_ratio : K) (n : Nat) : Nat :=
  if 2 ≤ n then (max 1 (min ((n : Int) - 1) (round_half_even (n * test_ratio)))).toNat else 0

def ordered (group : List (TimedEvent U I T K)) : List (TimedEvent U I T K) :=
  group.mergeSort fun a b => a.timestamp ≤ b.timestamp

def train_part (test_ratio : K) (group : List (TimedEvent U I T K)) : List (TimedEvent U I T K) :=
  (ordered group).take (group.length - n_test test_ratio group.length)

def test_part (test_ratio : K) (group : List (TimedEvent U I T K)) : List (TimedEvent U I T K) :=
  (ordered group).drop (group.length - n_test test_ratio group.length)

/-- `groupby(user_col, sort=False)`. The groups of categories that do not occur are empty and
add nothing to either half. -/
def user_groups (events : List (TimedEvent U I T K)) : List (List (TimedEvent U I T K)) :=
  Groups.groups (·.user) events

def train_df (test_ratio : K) (events : List (TimedEvent U I T K)) : List (TimedEvent U I T K) :=
  (user_groups events).flatMap (train_part test_ratio)

def test_df (test_ratio : K) (events : List (TimedEvent U I T K)) : List (TimedEvent U I T K) :=
  (user_groups events).flatMap (test_part test_ratio)

omit [LinearOrder T] [Field K] [LinearOrder K] [FloorRing K] in
theorem flatMap_part_subset {part : List (TimedEvent U I T K) → List (TimedEvent U I T K)}
    (hpart : ∀ group, part group ⊆ group) (events : List (TimedEvent U I T K)) :
    (user_groups events).flatMap part ⊆ events := by
  intro e he
  obtain ⟨group, hgroup, he⟩ := List.mem_flatMap.mp he
  have hflat := List.mem_flatten.mpr ⟨group, hgroup, hpart group he⟩
  exact List.mem_of_mem_filter ((Groups.perm_groups _ events).subset hflat)

theorem train_df_subset (test_ratio : K) (events : List (TimedEvent U I T K)) :
    train_df test_ratio events ⊆ events :=
  flatMap_part_subset (fun group _ he =>
    (List.mergeSort_perm group _).subset (List.mem_of_mem_take he)) events

theorem test_df_subset (test_ratio : K) (events : List (TimedEvent U I T K)) :
    test_df test_ratio events ⊆ events :=
  flatMap_part_subset (fun group _ he =>
    (List.mergeSort_perm group _).subset (List.mem_of_mem_drop he)) events

def TimedFrame.train (test_ratio : K) (frame : TimedFrame U I T K) : Frame U I K :=
  frame.part _ (train_df_subset test_ratio frame.events)

def TimedFrame.test (test_ratio : K) (frame : TimedFrame U I T K) : Frame U I K :=
  frame.part _ (test_df_subset test_ratio frame.events)

end Split

/-- The arguments of `temporal_split` besides the frame. -/
structure SplitRequest (K : Type) where
  user_col : String
  item_col : String
  value_col : Option String := none
  timestamp_col : String
  test_ratio : K
  implicit : Bool := true

/-- How both halves are prepared: nothing is filtered. -/
def SplitRequest.half (request : SplitRequest K) : Request where
  user_col := request.user_col
  item_col := request.item_col
  value_col := request.value_col
  implicit := request.implicit
  cold_start_mode := "include"

section Prepare

variable [LinearOrder U] [LinearOrder I] [LinearOrder T] [Field K] [LinearOrder K] [FloorRing K]

def temporal_split (fuel : Nat) (columns : List String) (request : SplitRequest K)
    (frame : TimedFrame U I T K) :
    ExceptT (InvalidParams K) Option (InteractionMatrix U I K × InteractionMatrix U I K) := do
  (check_column columns request.timestamp_col : Except (InvalidParams K) Unit)
  if ¬ (0 < request.test_ratio ∧ request.test_ratio < 1) then
    throw (.invalid_test_ratio request.test_ratio)
  let (train, _) ← prepare_interactions fuel columns request.half (frame.train request.test_ratio)
  let (test, _) ← prepare_interactions fuel columns request.half (frame.test request.test_ratio)
  return (train, test)

end Prepare

/-! ## Sizes -/

section Sizes

variable [Field K] [LinearOrder K] [IsStrictOrderedRing K] [FloorRing K]

theorem round_half_even_error (x : K) : |(round_half_even x : K) - x| ≤ 1 / 2 := by
  have hlow := Int.floor_le x
  have hhigh := Int.lt_floor_add_one x
  rw [round_half_even, abs_le]
  split_ifs <;> push_cast <;> constructor <;> linarith

omit [IsStrictOrderedRing K] in
theorem n_test_bounds (test_ratio : K) {n : Nat} (hn : 2 ≤ n) :
    1 ≤ n_test test_ratio n ∧ n_test test_ratio n ≤ n - 1 := by
  rw [n_test, if_pos hn]
  omega

omit [IsStrictOrderedRing K] in
theorem n_test_le (test_ratio : K) (n : Nat) : n_test test_ratio n ≤ n := by
  by_cases hn : 2 ≤ n
  · have := n_test_bounds test_ratio hn
    omega
  · rw [n_test, if_neg hn]
    exact Nat.zero_le n

omit [IsStrictOrderedRing K] in
/-- A size is the rounded product, unless that would empty a half. -/
theorem n_test_cases (test_ratio : K) {n : Nat} (hn : 2 ≤ n) :
    (n_test test_ratio n : Int) = round_half_even (n * test_ratio) ∨
      n_test test_ratio n = 1 ∧ round_half_even (n * test_ratio) ≤ 0 ∨
      (n_test test_ratio n : Int) = n - 1 ∧ (n : Int) ≤ round_half_even (n * test_ratio) := by
  rw [n_test, if_pos hn]
  omega

/-- A clamp moves a size by less than the product is away from it. -/
theorem n_test_error {test_ratio : K} (hpos : 0 < test_ratio) (hone : test_ratio < 1) (n : Nat) :
    |(n_test test_ratio n : K) - n * test_ratio| ≤ 1 := by
  have herror := abs_le.mp (round_half_even_error (n * test_ratio))
  have hzero : 0 ≤ n * test_ratio := mul_nonneg (Nat.cast_nonneg n) hpos.le
  have hle : n * test_ratio ≤ n := mul_le_of_le_one_right (Nat.cast_nonneg n) hone.le
  by_cases hn : 2 ≤ n
  · rcases n_test_cases test_ratio hn with hround | ⟨htest, hround⟩ | ⟨htest, hround⟩
    · have htest : (n_test test_ratio n : K) = (round_half_even (n * test_ratio) : K) := by
        exact_mod_cast congrArg (Int.cast : Int → K) hround
      rw [htest, abs_le]
      constructor <;> linarith
    · have hround : (round_half_even (n * test_ratio) : K) ≤ 0 := by exact_mod_cast hround
      rw [htest, Nat.cast_one, abs_le]
      constructor <;> linarith
    · have htest : (n_test test_ratio n : K) = n - 1 := by
        have := congrArg (Int.cast : Int → K) htest
        push_cast at this
        exact this
      have hround : (n : K) ≤ (round_half_even (n * test_ratio) : K) := by exact_mod_cast hround
      rw [htest, abs_le]
      constructor <;> linarith
  · have hsmall : (n : K) ≤ 1 := by exact_mod_cast (by omega : n ≤ 1)
    rw [n_test, if_neg hn, Nat.cast_zero, abs_le]
    constructor <;> linarith

end Sizes

/-! ## The halves -/

section Halves

variable [DecidableEq U] [LinearOrder T] [Field K] [LinearOrder K] [FloorRing K]

/-- The events of a user. -/
def events_of (user : U) (events : List (TimedEvent U I T K)) : List (TimedEvent U I T K) :=
  Groups.group (·.user) events user

omit [DecidableEq U] in
theorem parts_perm (test_ratio : K) (group : List (TimedEvent U I T K)) :
    (train_part test_ratio group ++ test_part test_ratio group).Perm group := by
  rw [train_part, test_part, List.take_append_drop]
  exact List.mergeSort_perm group _

theorem halves_perm (test_ratio : K) {events : List (TimedEvent U I T K)}
    (huser : ∀ e ∈ events, e.user.isSome = true) :
    (train_df test_ratio events ++ test_df test_ratio events).Perm events := by
  have hall : events.filter (fun e => e.user.isSome) = events := List.filter_eq_self.mpr huser
  have hparts : ((user_groups events).flatMap fun g =>
      train_part test_ratio g ++ test_part test_ratio g).Perm ((user_groups events).flatMap id) :=
    List.Perm.flatMap_left _ fun g _ => parts_perm test_ratio g
  have hgroups : ((user_groups events).flatMap id).Perm events := by
    rw [List.flatMap_id]
    exact (Groups.perm_groups _ events).trans (List.Perm.of_eq hall)
  exact ((List.flatMap_append_perm _ _ _).trans hparts).trans hgroups

theorem train_of (test_ratio : K) (events : List (TimedEvent U I T K)) (user : U) :
    events_of user (train_df test_ratio events) = train_part test_ratio (events_of user events) := by
  refine Groups.filter_flatMap_groups (by simp [train_part, ordered]) (fun k e he => ?_) user
  have hmem := (parts_perm test_ratio _).subset (List.mem_append_left _ he)
  exact (Groups.mem_group.mp hmem).2

theorem test_of (test_ratio : K) (events : List (TimedEvent U I T K)) (user : U) :
    events_of user (test_df test_ratio events) = test_part test_ratio (events_of user events) := by
  refine Groups.filter_flatMap_groups (by simp [test_part, ordered]) (fun k e he => ?_) user
  have hmem := (parts_perm test_ratio _).subset (List.mem_append_right _ he)
  exact (Groups.mem_group.mp hmem).2

omit [DecidableEq U] in
theorem test_part_length (test_ratio : K) (group : List (TimedEvent U I T K)) :
    (test_part test_ratio group).length = n_test test_ratio group.length := by
  have hle := n_test_le test_ratio group.length
  rw [test_part, List.length_drop, ordered, List.length_mergeSort]
  omega

omit [DecidableEq U] in
theorem train_part_length (test_ratio : K) (group : List (TimedEvent U I T K)) :
    (train_part test_ratio group).length = group.length - n_test test_ratio group.length := by
  rw [train_part, List.length_take, ordered, List.length_mergeSort]
  omega

omit [DecidableEq U] in
theorem parts_ordered (test_ratio : K) (group : List (TimedEvent U I T K)) :
    ∀ a ∈ train_part test_ratio group, ∀ b ∈ test_part test_ratio group,
      a.timestamp ≤ b.timestamp := by
  have hsorted := StableSort.pairwise_mergeSort_key (fun e => e.timestamp) group
  rw [← List.take_append_drop (group.length - n_test test_ratio group.length)
    (group.mergeSort _)] at hsorted
  exact (List.pairwise_append.mp hsorted).2.2

end Halves

/-- What a split promises of the events. -/
structure SplitOk [DecidableEq U] [LinearOrder T] [Field K] [LinearOrder K] (test_ratio : K)
    (events train test : List (TimedEvent U I T K)) : Prop where
  partition : (train ++ test).Perm events
  recent : ∀ a ∈ train, ∀ b ∈ test, a.user = b.user → a.timestamp ≤ b.timestamp
  both : ∀ user, 2 ≤ (events_of user events).length →
    events_of user train ≠ [] ∧ events_of user test ≠ []
  single : ∀ user, (events_of user events).length = 1 →
    events_of user train = events_of user events ∧ events_of user test = []
  size : ∀ user,
    |((events_of user test).length : K) - (events_of user events).length * test_ratio| ≤ 1

section

variable [DecidableEq U] [LinearOrder T] [Field K] [LinearOrder K] [FloorRing K]

theorem halves_recent (test_ratio : K) {events : List (TimedEvent U I T K)}
    (huser : ∀ e ∈ events, e.user.isSome = true) {a b : TimedEvent U I T K}
    (ha : a ∈ train_df test_ratio events) (hb : b ∈ test_df test_ratio events)
    (hab : a.user = b.user) : a.timestamp ≤ b.timestamp := by
  have hmem := (halves_perm test_ratio huser).subset (List.mem_append_left _ ha)
  obtain ⟨user, hkey⟩ := Option.isSome_iff_exists.mp (huser a hmem)
  have ha' : a ∈ events_of user (train_df test_ratio events) := Groups.mem_group.mpr ⟨ha, hkey⟩
  have hb' : b ∈ events_of user (test_df test_ratio events) :=
    Groups.mem_group.mpr ⟨hb, hab.symm.trans hkey⟩
  rw [train_of] at ha'
  rw [test_of] at hb'
  exact parts_ordered test_ratio _ a ha' b hb'

/-- A user with two events has one on each side. -/
theorem halves_both (test_ratio : K) {events : List (TimedEvent U I T K)} {user : U}
    (hn : 2 ≤ (events_of user events).length) :
    events_of user (train_df test_ratio events) ≠ [] ∧
      events_of user (test_df test_ratio events) ≠ [] := by
  have hbounds := n_test_bounds test_ratio hn
  rw [train_of, test_of, ← List.length_pos_iff, ← List.length_pos_iff, train_part_length,
    test_part_length]
  omega

theorem halves_single (test_ratio : K) {events : List (TimedEvent U I T K)} {user : U}
    (hn : (events_of user events).length = 1) :
    events_of user (train_df test_ratio events) = events_of user events ∧
      events_of user (test_df test_ratio events) = [] := by
  have htest : events_of user (test_df test_ratio events) = [] := by
    rw [← List.length_eq_zero_iff, test_of, test_part_length, hn, n_test]
    rfl
  refine ⟨?_, htest⟩
  obtain ⟨e, he⟩ := List.length_eq_one_iff.mp hn
  have hnone : n_test test_ratio [e].length = 0 := rfl
  rw [train_of, he, train_part, hnone, ordered, List.mergeSort_singleton]
  rfl

end

section

variable [DecidableEq U] [LinearOrder T] [Field K] [LinearOrder K] [IsStrictOrderedRing K]
  [FloorRing K]

theorem split_ok {test_ratio : K} (hpos : 0 < test_ratio) (hone : test_ratio < 1)
    {events : List (TimedEvent U I T K)} (huser : ∀ e ∈ events, e.user.isSome = true) :
    SplitOk test_ratio events (train_df test_ratio events) (test_df test_ratio events) where
  partition := halves_perm test_ratio huser
  recent _ ha _ hb hab := halves_recent test_ratio huser ha hb hab
  both _ hn := halves_both test_ratio hn
  single _ hn := halves_single test_ratio hn
  size user := by
    rw [test_of, test_part_length]
    exact n_test_error hpos hone _

end

section

variable [LinearOrder U] [LinearOrder I] [Field K] [LinearOrder K]

/-- The columns a request names are there. -/
def SplitRequest.Known (request : SplitRequest K) (columns : List String) : Prop :=
  request.user_col ∈ columns ∧ request.item_col ∈ columns ∧
    (∀ col ∈ request.value_col, col ∈ columns) ∧ request.timestamp_col ∈ columns

/-- The matrix of a half. -/
def half_matrix (request : SplitRequest K) (half : Frame U I K) : InteractionMatrix U I K :=
  from_dataframe request.implicit (aggregate (request.value_col.map fun _ => .sum) half).rows

/-- Nothing is filtered, so that no fuel is spent. -/
theorem prepare_half {columns : List String} {request : SplitRequest K}
    (hknown : request.Known columns) (fuel : Nat) (half : Frame U I K) :
    prepare_interactions fuel columns request.half half =
      ExceptT.mk (some (.ok (half_matrix request half, none))) := by
  obtain ⟨huser, hitem, hvalue, _⟩ := hknown
  have hchecked : check_request (K := K) columns request.half = .ok (.sum, .include_) := by
    cases hcol : request.value_col with
    | none =>
        simp [check_request, SplitRequest.half, check_column, huser, hitem, hcol, Agg.read,
          ColdStart.read]
        rfl
    | some col =>
        have hcol' := hvalue col hcol
        simp [check_request, SplitRequest.half, check_column, huser, hitem, hcol, hcol', Agg.read,
          ColdStart.read]
        rfl
  rw [prepare_interactions, hchecked]
  rfl

end

/-- With known columns and a ratio between 0 and 1, `temporal_split` gives the matrices of two
halves that are split as promised. -/
theorem temporal_split_halves [LinearOrder U] [LinearOrder I] [LinearOrder T] [Field K]
    [LinearOrder K] [IsStrictOrderedRing K] [FloorRing K] {columns : List String}
    {request : SplitRequest K} (hknown : request.Known columns) (hpos : 0 < request.test_ratio)
    (hone : request.test_ratio < 1) {frame : TimedFrame U I T K}
    (huser : ∀ e ∈ frame.events, e.user.isSome = true) :
    SplitOk request.test_ratio frame.events (train_df request.test_ratio frame.events)
        (test_df request.test_ratio frame.events) ∧
      ∀ fuel, (temporal_split fuel columns request frame).run =
        some (.ok (half_matrix request (frame.train request.test_ratio),
          half_matrix request (frame.test request.test_ratio))) := by
  refine ⟨split_ok hpos hone huser, fun fuel => ?_⟩
  have hcol : check_column (K := K) columns request.timestamp_col = .ok () :=
    if_pos hknown.2.2.2
  rw [temporal_split, hcol, prepare_half hknown, prepare_half hknown]
  simp [hpos, hone]
  rfl

/-- A user with three events, one of them of the time of another, and a user with one. -/
def few_events : TimedFrame Nat Nat Nat ℚ where
  users := .plain
  items := .plain
  events :=
    [{ user := some 1, item := some 5, value := some 2, timestamp := (9 : Nat) },
      { user := some 2, item := some 5, value := none, timestamp := (1 : Nat) },
      { user := some 1, item := some 6, value := some 1, timestamp := (4 : Nat) },
      { user := some 1, item := some 5, value := some 3, timestamp := (9 : Nat) }]
  users_hold _ _ _ _ := trivial
  items_hold _ _ _ _ := trivial

def few_request : SplitRequest ℚ where
  user_col := "user"
  item_col := "item"
  value_col := some "rating"
  timestamp_col := "ts"
  test_ratio := 1 / 2

theorem few_events_split :
    SplitOk (1 / 2) few_events.events (train_df (1 / 2) few_events.events)
        (test_df (1 / 2) few_events.events) ∧
      ∀ fuel, (temporal_split fuel ["user", "item", "rating", "ts"] few_request few_events).run =
        some (.ok (half_matrix few_request (few_events.train (1 / 2)),
          half_matrix few_request (few_events.test (1 / 2)))) := by
  have hknown : few_request.Known ["user", "item", "rating", "ts"] :=
    ⟨by decide, by decide, by simp [few_request], by decide⟩
  exact temporal_split_halves hknown (by norm_num [few_request]) (by norm_num [few_request])
    (by decide)

end EmergentFlow.Recommend
