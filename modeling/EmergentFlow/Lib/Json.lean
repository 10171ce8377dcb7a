import Mathlib.Data.Rat.Defs

/-!
# Json — parsed JSON documents

The values a JSON parser produces, with whole numbers apart from the others
and with the two non-finite floats that lenient parsers accept.
-/

/-- A float as a parser reads it. -/
inductive JsonFloat where
  | finite (x : Rat)
  | infinity (negative : Bool)
  | nan
  deriving DecidableEq, Repr

inductive Json where
  | null
  | bool (b : Bool)
  | int (i : Int)
  | float (x : JsonFloat)
  | str (s : String)
  | arr (items : List Json)
  | obj (members : List (String × Json))
  deriving Repr

namespace Json

/-- The member under a key, if this is an object that has it. -/
def get? (key : String) : Json → Option Json
  | obj members => members.lookup key
  | _ => none

/-- The string, if this is one. -/
def str? : Json → Option String
  | str s => some s
  | _ => none

def isObj : Json → Bool
  | obj _ => true
  | _ => false

/-- Whether a dynamic language takes the value as a key of a dictionary. -/
def hashable : Json → Bool
  | arr _ => false
  | obj _ => false
  | _ => true

/-- Whether a dynamic language takes the value for true. -/
def truthy : Json → Bool
  | null => false
  | bool b => b
  | int i => i ≠ 0
  | float (.finite x) => x ≠ 0
  | float _ => true
  | str s => s ≠ ""
  | arr items => !items.isEmpty
  | obj members => !members.isEmpty

end Json
