import EmergentFlow.Lib.Checks
import EmergentFlow.Lib.Json
import Mathlib.Data.Rat.Lemmas

/-!
# Nodes — Hints

The declarative hints of a param (`nodes/spec.py`) and their check by the
backend (`nodes/contract.py`). What a regular expression means is a
parameter.
-/

namespace EmergentFlow

/-! ## Python's `==` -/

/-- The number that an `int`, a `bool` or a `float` stands for in a comparison. -/
def py_number : Json → Option JsonFloat
  | .bool b => some (.finite (if b then 1 else 0))
  | .int i => some (.finite i)
  | .float x => some x
  | _ => none

/-- `==` of two floats. -/
def float_eq : JsonFloat → JsonFloat → Bool
  | .nan, _ => false
  | x, y => x = y

mutual

/-- `==` of two JSON values. -/
def py_eq : Json → Json → Bool
  | .null, .null => true
  | .str a, .str b => a = b
  | .arr xs, .arr ys => py_eq_items xs ys
  | .obj ms, .obj ns => ms.length = ns.length && py_eq_members ms ns
  | .bool a, y => (py_number y).any (float_eq (.finite (if a then 1 else 0)))
  | .int i, y => (py_number y).any (float_eq (.finite i))
  | .float x, y => (py_number y).any (float_eq x)
  | _, _ => false

def py_eq_items : List Json → List Json → Bool
  | [], [] => true
  | x :: xs, y :: ys => py_eq x y && py_eq_items xs ys
  | _, _ => false

/-- Every member of the first is in the second. -/
def py_eq_members : List (String × Json) → List (String × Json) → Bool
  | [], _ => true
  | (key, x) :: ms, ns => (ns.lookup key).any (fun y => py_eq x y) && py_eq_members ms ns

end

/-- `value in choices`. -/
def py_in (value : Json) (choices : List Json) : Bool := choices.any (py_eq value)

/-- A string equals strings only. -/
theorem py_eq_str {s : String} {y : Json} : py_eq (.str s) y = true ↔ y = .str s := by
  cases y with
  | str b => simp [py_eq, eq_comm]
  | _ => simp [py_eq]

theorem py_in_str {s : String} {choices : List Json} :
    py_in (.str s) choices = true ↔ .str s ∈ choices := by
  simp [py_in, py_eq_str]

/-! ## Regular expressions -/

/-- What a pattern means: nothing if it does not compile, else whether it
matches a text from one position to another. -/
abbrev Regex : Type := String → Option (List Char → Nat → Nat → Bool)

/-- `re.fullmatch`. -/
def fullmatch (m : List Char → Nat → Nat → Bool) (text : List Char) : Bool := m text 0 text.length

/-- `RegExp.prototype.test`: the pattern matches somewhere. -/
def search (m : List Char → Nat → Nat → Bool) (text : List Char) : Bool :=
  (List.range (text.length + 1)).any fun i => (List.range (text.length + 1)).any fun j =>
    i ≤ j && m text i j

theorem search_of_fullmatch {m : List Char → Nat → Nat → Bool} {text : List Char}
    (h : fullmatch m text = true) : search m text = true := by
  rw [search, List.any_eq_true]
  refine ⟨0, List.mem_range.mpr (Nat.succ_pos _), ?_⟩
  rw [List.any_eq_true]
  refine ⟨text.length, List.mem_range.mpr (Nat.lt_succ_self _), ?_⟩
  rw [Bool.and_eq_true]
  exact ⟨decide_eq_true (Nat.zero_le _), h⟩

/-! ## Hints -/

/-- The hints that the checks read. -/
structure ValidationHints where
  min : Option Rat := none
  max : Option Rat := none
  choices : Option (List Json) := none
  min_length : Option Int := none
  max_length : Option Int := none
  pattern : Option String := none
  widget : Option String := none

namespace ValidationHints

variable (hints : ValidationHints)

/-- A number is within the bounds. -/
def InBounds (x : Rat) : Prop := (∀ m ∈ hints.min, m ≤ x) ∧ ∀ m ∈ hints.max, x ≤ m

/-- A length is within the bounds. -/
def InLength (n : Int) : Prop := (∀ m ∈ hints.min_length, m ≤ n) ∧ ∀ m ∈ hints.max_length, n ≤ m

/-- A text is one of the choices, if there are any. -/
def Chosen (s : String) : Prop := ∀ choices ∈ hints.choices, Json.str s ∈ choices

/-- A text matches the pattern, if there is one, as a whole. -/
def Matched (regex : Regex) (s : String) : Prop :=
  ∀ p ∈ hints.pattern, ∃ m, regex p = some m ∧ fullmatch m s.toList = true

end ValidationHints

/-! ## The check of the backend -/

/-- What a message says. -/
inductive HintFinding where
  | unknown_values (unknown choices : List Json)
  | not_one_of (value : Json) (choices : List Json)
  | below_min (value : Json) (min : Rat)
  | above_max (value : Json) (max : Rat)
  | short (length : Nat) (min_length : Int)
  | long (length : Nat) (max_length : Int)
  | no_match (value pattern : String)

/-- A message: the param that it names and what it says. -/
structure HintError where
  name : String
  finding : HintFinding

/-- `re.error`. -/
inductive RegexError where
  | error (pattern : String)

/-- `x < bound`. -/
def float_lt : JsonFloat → Rat → Bool
  | .finite x, bound => x < bound
  | .infinity negative, _ => negative
  | .nan, _ => false

/-- `x > bound`. -/
def float_gt : JsonFloat → Rat → Bool
  | .finite x, bound => bound < x
  | .infinity negative, _ => !negative
  | .nan, _ => false

/-- The choices. -/
def choice_findings (hints : ValidationHints) (value : Json) : List HintFinding :=
  match hints.choices with
  | none => []
  | some choices =>
      match value with
      | .arr items =>
          let unknown := items.filter fun v => !py_in v choices
          if unknown.isEmpty then [] else [.unknown_values unknown choices]
      | value => if py_in value choices then [] else [.not_one_of value choices]

/-- The numeric bounds. A `bool` is not held to them. -/
def bound_findings (hints : ValidationHints) (value : Json) : List HintFinding :=
  match value with
  | .bool _ => []
  | value =>
      match py_number value with
      | none => []
      | some x =>
          ((hints.min.filter (float_lt x)).map (HintFinding.below_min value)).toList ++
            ((hints.max.filter (float_gt x)).map (HintFinding.above_max value)).toList

/-- `len(value)`, of a string or a list. -/
def py_len : Json → Option Nat
  | .str s => some s.toList.length
  | .arr items => some items.length
  | _ => none

/-- The length bounds. -/
def length_findings (hints : ValidationHints) (value : Json) : List HintFinding :=
  match py_len value with
  | none => []
  | some length =>
      ((hints.min_length.filter ((length : Int) < ·)).map (HintFinding.short length)).toList ++
        ((hints.max_length.filter (· < (length : Int))).map (HintFinding.long length)).toList

/-- The pattern, for a string. -/
def pattern_findings (regex : Regex) (hints : ValidationHints) (value : Json) :
    Except RegexError (List HintFinding) :=
  match hints.pattern, value with
  | some p, .str s =>
      match regex p with
      | none => .error (.error p)
      | some m => .ok (if fullmatch m s.toList then [] else [.no_match s p])
  | _, _ => .ok []

/-- `_check_hints`. -/
def check_hints (regex : Regex) (name : String) (value : Json) (hints : Option ValidationHints) :
    Except RegexError (List HintError) :=
  match hints with
  | none => .ok []
  | some hints => do
      let found ← pattern_findings regex hints value
      return (choice_findings hints value ++ bound_findings hints value ++
        length_findings hints value ++ found).map (HintError.mk name)

/-! ## When it finds nothing -/

theorem filter_map_toList_eq_nil {α β : Type} {o : Option α} {p : α → Bool} {f : α → β} :
    ((o.filter p).map f).toList = [] ↔ ∀ a ∈ o, p a = false := by
  cases o with
  | none => simp
  | some a => cases h : p a <;> simp [Option.filter, h]

theorem length_findings_eq_nil {hints : ValidationHints} {value : Json} :
    length_findings hints value = [] ↔ ∀ length ∈ py_len value, hints.InLength length := by
  rw [length_findings]
  cases py_len value with
  | none => simp
  | some length =>
      simp only [List.append_eq_nil_iff, filter_map_toList_eq_nil, decide_eq_false_iff_not,
        not_lt, Option.mem_some_iff, forall_eq', ValidationHints.InLength]

/-- A finite number that is no `bool` is held to the bounds. -/
theorem bound_findings_eq_nil {hints : ValidationHints} {value : Json} {x : Rat}
    (hbool : ∀ b, value ≠ .bool b) (hx : py_number value = some (.finite x)) :
    bound_findings hints value = [] ↔ hints.InBounds x := by
  have hfindings : bound_findings hints value =
      ((hints.min.filter (float_lt (.finite x))).map (HintFinding.below_min value)).toList ++
        ((hints.max.filter (float_gt (.finite x))).map (HintFinding.above_max value)).toList := by
    cases value with
    | bool b => exact absurd rfl (hbool b)
    | _ => simp only [bound_findings, hx]
  rw [hfindings]
  simp only [List.append_eq_nil_iff, filter_map_toList_eq_nil, float_lt, float_gt,
    decide_eq_false_iff_not, Rat.not_lt, ValidationHints.InBounds]

theorem bound_findings_of_no_number {hints : ValidationHints} {value : Json}
    (h : py_number value = none) : bound_findings hints value = [] := by
  cases value with
  | bool b => rfl
  | _ => simp only [bound_findings, h]

theorem check_hints_some {regex : Regex} {name : String} {value : Json} {hints : ValidationHints} :
    check_hints regex name value (some hints) = .ok [] ↔
      pattern_findings regex hints value = .ok [] ∧ choice_findings hints value = [] ∧
        bound_findings hints value = [] ∧ length_findings hints value = [] := by
  rw [check_hints, Checks.bind_eq_ok]
  constructor
  · rintro ⟨found, hpattern, hrest⟩
    have hnil := Except.ok.inj hrest
    rw [List.map_eq_nil_iff] at hnil
    simp only [List.append_eq_nil_iff] at hnil
    obtain ⟨⟨⟨hchoice, hbound⟩, hlength⟩, rfl⟩ := hnil
    exact ⟨hpattern, hchoice, hbound, hlength⟩
  · rintro ⟨hpattern, hchoice, hbound, hlength⟩
    refine ⟨[], hpattern, ?_⟩
    rw [hchoice, hbound, hlength]
    rfl

/-- No hints are hints without a constraint. -/
theorem check_hints_getD {regex : Regex} {name : String} {value : Json}
    {hints : Option ValidationHints} :
    check_hints regex name value hints = .ok [] ↔
      check_hints regex name value (some (hints.getD {})) = .ok [] := by
  cases hints with
  | some hints => rfl
  | none =>
      refine ⟨fun _ => ?_, fun _ => rfl⟩
      rw [check_hints_some]
      refine ⟨rfl, rfl, ?_, ?_⟩
      · cases hx : py_number value with
        | none => exact bound_findings_of_no_number hx
        | some x => cases value <;> simp [bound_findings, hx]
      · rw [length_findings_eq_nil]
        exact fun length _ => ⟨nofun, nofun⟩

/-- A string is to be a choice, of a fitting length, and to match. -/
theorem check_hints_str {regex : Regex} {name s : String} {hints : ValidationHints} :
    check_hints regex name (.str s) (some hints) = .ok [] ↔
      hints.Chosen s ∧ hints.InLength s.toList.length ∧ hints.Matched regex s := by
  rw [check_hints_some, length_findings_eq_nil]
  have hpattern : pattern_findings regex hints (.str s) = .ok [] ↔ hints.Matched regex s := by
    cases hp : hints.pattern with
    | none => simp [pattern_findings, ValidationHints.Matched, hp]
    | some p => cases hm : regex p <;> simp [pattern_findings, ValidationHints.Matched, hp, hm]
  have hchoice : choice_findings hints (.str s) = [] ↔ hints.Chosen s := by
    cases hc : hints.choices with
    | none => simp [choice_findings, ValidationHints.Chosen, hc]
    | some choices => simp [choice_findings, ValidationHints.Chosen, hc, py_in_str]
  rw [hpattern, hchoice]
  constructor
  · rintro ⟨hmatched, hchosen, -, hlength⟩
    exact ⟨hchosen, hlength _ rfl, hmatched⟩
  · rintro ⟨hchosen, hlength, hmatched⟩
    refine ⟨hmatched, hchosen, bound_findings_of_no_number rfl, fun length hl => ?_⟩
    cases hl
    exact hlength

/-- A list is to be of a fitting length, and its items are to be choices. -/
theorem check_hints_arr {regex : Regex} {name : String} {items : List Json}
    {hints : ValidationHints} :
    check_hints regex name (.arr items) (some hints) = .ok [] ↔
      (∀ choices ∈ hints.choices, ∀ v ∈ items, py_in v choices = true) ∧
        hints.InLength items.length := by
  rw [check_hints_some, length_findings_eq_nil]
  have hpattern : pattern_findings regex hints (.arr items) = .ok [] := by
    cases hp : hints.pattern <;> simp [pattern_findings, hp]
  have hchoice : choice_findings hints (.arr items) = [] ↔
      ∀ choices ∈ hints.choices, ∀ v ∈ items, py_in v choices = true := by
    cases hc : hints.choices with
    | none => simp [choice_findings, hc]
    | some choices => simp [choice_findings, hc]
  rw [hchoice]
  constructor
  · rintro ⟨-, hchosen, -, hlength⟩
    exact ⟨hchosen, hlength _ rfl⟩
  · rintro ⟨hchosen, hlength⟩
    refine ⟨hpattern, hchosen, bound_findings_of_no_number rfl, fun length hl => ?_⟩
    cases hl
    exact hlength

/-- Without choices, what is no string and no list is held to the numeric
bounds at most. -/
theorem check_hints_other {regex : Regex} {name : String} {value : Json} {hints : ValidationHints}
    (hchoices : hints.choices = none) (hlen : py_len value = none) :
    check_hints regex name value (some hints) = .ok [] ↔ bound_findings hints value = [] := by
  rw [check_hints_some, length_findings_eq_nil, choice_findings, hchoices, hlen]
  have hpattern : pattern_findings regex hints value = .ok [] := by
    cases value with
    | str s => cases hlen
    | _ => cases hp : hints.pattern <;> simp [pattern_findings, hp]
  simp [hpattern]

end EmergentFlow
