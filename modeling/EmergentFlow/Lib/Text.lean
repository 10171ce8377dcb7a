import Mathlib.Data.List.DropRight

/-!
# Lib — Text

White space as Python sees it: `str.strip`, and the check for a text that is
not blank.
-/

namespace EmergentFlow

/-- `str.isspace` of one character. -/
def is_space (c : Char) : Bool :=
  let n := c.toNat
  (0x09 ≤ n && n ≤ 0x0D) || (0x1C ≤ n && n ≤ 0x20) || n = 0x85 || n = 0xA0 || n = 0x1680 ||
    (0x2000 ≤ n && n ≤ 0x200A) || n = 0x2028 || n = 0x2029 || n = 0x202F || n = 0x205F || n = 0x3000

/-- `str.strip`. -/
def py_strip (chars : List Char) : List Char := (chars.dropWhile is_space).rdropWhile is_space

/-- `v and v.strip()`, the check on every name. -/
def nonblank (s : String) : Bool := !(py_strip s.toList).isEmpty

end EmergentFlow
