import Mathlib.Algebra.GroupWithZero.Nat
import EmergentFlow.Lib.Decimal
import EmergentFlow.Lib.Dict
import EmergentFlow.Lib.Json

/-!
# CompactJson — JSON texts in ASCII and their sizes

JSON without a blank and in ASCII alone, as `json.dumps(value, separators=(",", ":"))` of
Python writes it. How a float is written is a parameter.

The size of an object is what its keys take (`frame`) and what its values take (`size_obj`),
so two objects with the same keys differ by their values.
-/

namespace CompactJson

/-! ## Texts -/

def quotation : Char := '\x22'

def backslash : Char := '\x5c'

def hexDigit (n : Nat) : Char :=
  if n < 10 then Char.ofNat ('0'.toNat + n) else Char.ofNat ('a'.toNat + (n - 10))

/-- A unit of UTF-16 in four hexadecimal digits. -/
def escapeUnit (n : Nat) : List Char :=
  [backslash, 'u', hexDigit (n / 0x1000 % 16), hexDigit (n / 0x100 % 16), hexDigit (n / 0x10 % 16),
   hexDigit (n % 16)]

/-- The letters of the short escapes. -/
def escapes : List (Char × Char) :=
  [(backslash, backslash), (quotation, quotation), ('\x08', 'b'), ('\x0c', 'f'), ('\n', 'n'),
   ('\r', 'r'), ('\t', 't')]

def escapeChar (c : Char) : List Char :=
  match escapes.lookup c with
  | some letter => [backslash, letter]
  | none =>
      if ' '.toNat ≤ c.toNat ∧ c.toNat ≤ '~'.toNat then [c]
      else if c.toNat < 0x10000 then escapeUnit c.toNat
      else
        escapeUnit (0xD800 + (c.toNat - 0x10000) / 0x400) ++
          escapeUnit (0xDC00 + (c.toNat - 0x10000) % 0x400)

def quote (s : String) : List Char :=
  quotation :: s.toList.flatMap escapeChar ++ [quotation]

section Texts

variable (float_repr : Rat → String)

def floatText : JsonFloat → String
  | .finite x => float_repr x
  | .infinity false => "Infinity"
  | .infinity true => "-Infinity"
  | .nan => "NaN"

mutual

def print : Json → List Char
  | .null => "null".toList
  | .bool b => (if b then "true" else "false").toList
  | .int i => i.repr.toList
  | .float x => (floatText float_repr x).toList
  | .str s => quote s
  | .arr [] => ['[', ']']
  | .arr (v :: vs) => '[' :: print v ++ printItems vs ++ [']']
  | .obj [] => ['\x7b', '\x7d']
  | .obj ((k, v) :: ms) => '\x7b' :: quote k ++ ':' :: print v ++ printMembers ms ++ ['\x7d']

/-- The items behind the first. -/
def printItems : List Json → List Char
  | [] => []
  | v :: vs => ',' :: print v ++ printItems vs

def printMembers : List (String × Json) → List Char
  | [] => []
  | (k, v) :: ms => ',' :: quote k ++ ':' :: print v ++ printMembers ms

end

def dumps (value : Json) : String := String.ofList (print float_repr value)

/-- How many characters the text has. -/
def size (value : Json) : Nat := (print float_repr value).length

theorem length_dumps (value : Json) : (dumps float_repr value).length = size float_repr value :=
  String.length_ofList

end Texts

/-! ## Bytes -/

def Ascii (l : List Char) : Prop := ∀ c ∈ l, c.toNat < 0x80

theorem ascii_nil : Ascii [] := nofun

theorem ascii_cons {c : Char} {l : List Char} : Ascii (c :: l) ↔ c.toNat < 0x80 ∧ Ascii l :=
  List.forall_mem_cons

theorem ascii_append {l l' : List Char} : Ascii (l ++ l') ↔ Ascii l ∧ Ascii l' :=
  List.forall_mem_append

theorem ascii_of_all {l : List Char} (h : (l.all fun c => c.toNat < 0x80) = true) : Ascii l := by
  simpa [Ascii] using h

theorem hexDigit_ascii {n : Nat} (h : n < 16) : (hexDigit n).toNat < 0x80 := by
  have hall : ∀ n < 16, (hexDigit n).toNat < 0x80 := by decide
  exact hall n h

theorem escapeUnit_ascii (n : Nat) : Ascii (escapeUnit n) := by
  have hdigit (m : Nat) : (hexDigit (m % 16)).toNat < 0x80 :=
    hexDigit_ascii (Nat.mod_lt m (by decide))
  simp only [escapeUnit, ascii_cons, hdigit, ascii_nil, and_true]
  decide

theorem escapeChar_ascii (c : Char) : Ascii (escapeChar c) := by
  have hletters : ∀ e ∈ escapes, e.2.toNat < 0x80 := by decide
  unfold escapeChar
  cases hlookup : escapes.lookup c with
  | some letter =>
      obtain ⟨l, l', hl, -⟩ := List.lookup_eq_some_iff.mp hlookup
      have hletter := hletters (c, letter) (hl ▸ List.mem_append_right _ List.mem_cons_self)
      simp only [ascii_cons, ascii_nil, and_true]
      exact ⟨by decide, hletter⟩
  | none =>
      have htilde : '~'.toNat = 0x7e := rfl
      dsimp only
      split
      · rename_i hprintable
        simp only [ascii_cons, ascii_nil, and_true]
        omega
      · split
        · exact escapeUnit_ascii _
        · exact ascii_append.mpr ⟨escapeUnit_ascii _, escapeUnit_ascii _⟩

theorem quote_ascii (s : String) : Ascii (quote s) := by
  have hflat : Ascii (s.toList.flatMap escapeChar) := by
    intro c hc
    obtain ⟨d, -, hd⟩ := List.mem_flatMap.mp hc
    exact escapeChar_ascii d c hd
  simp only [quote, List.cons_append, ascii_cons, ascii_append, hflat, ascii_nil, and_true]
  decide

theorem int_ascii (i : Int) : Ascii i.repr.toList := by
  intro c hc
  rcases Decimal.mem_int_repr hc with hdigit | rfl
  · have hbounds : '0'.toNat ≤ c.toNat ∧ c.toNat ≤ '9'.toNat := by
      simpa [Char.isDigit, Char.le_def, UInt32.le_iff_toNat_le] using hdigit
    have : '9'.toNat = 0x39 := rfl
    omega
  · decide

section Bytes

variable {float_repr : Rat → String}

theorem floatText_ascii (hfloat : ∀ x, Ascii (float_repr x).toList) (x : JsonFloat) :
    Ascii (floatText float_repr x).toList := by
  cases x with
  | finite x => exact hfloat x
  | infinity negative =>
      cases negative with
      | false =>
          show Ascii "Infinity".toList
          exact ascii_of_all (by decide)
      | true =>
          show Ascii "-Infinity".toList
          exact ascii_of_all (by decide)
  | nan =>
      show Ascii "NaN".toList
      exact ascii_of_all (by decide)

mutual

theorem print_ascii (hfloat : ∀ x, Ascii (float_repr x).toList) :
    ∀ value : Json, Ascii (print float_repr value)
  | .null => by
      unfold print
      exact ascii_of_all (by decide)
  | .bool b => by
      unfold print
      cases b <;> exact ascii_of_all (by decide)
  | .int i => int_ascii i
  | .float x => floatText_ascii hfloat x
  | .str s => quote_ascii s
  | .arr [] => by
      simp only [print, ascii_cons, ascii_nil]
      decide
  | .arr (v :: vs) => by
      simp only [print, List.cons_append, ascii_cons, ascii_append, ascii_nil, print_ascii hfloat v,
        printItems_ascii hfloat vs]
      decide
  | .obj [] => by
      simp only [print, ascii_cons, ascii_nil]
      decide
  | .obj ((k, v) :: ms) => by
      simp only [print, List.cons_append, ascii_cons, ascii_append, ascii_nil, quote_ascii k,
        print_ascii hfloat v, printMembers_ascii hfloat ms]
      decide

theorem printItems_ascii (hfloat : ∀ x, Ascii (float_repr x).toList) :
    ∀ vs : List Json, Ascii (printItems float_repr vs)
  | [] => ascii_nil
  | v :: vs => by
      simp only [printItems, List.cons_append, ascii_cons, ascii_append, print_ascii hfloat v,
        printItems_ascii hfloat vs]
      decide

theorem printMembers_ascii (hfloat : ∀ x, Ascii (float_repr x).toList) :
    ∀ ms : List (String × Json), Ascii (printMembers float_repr ms)
  | [] => ascii_nil
  | (k, v) :: ms => by
      simp only [printMembers, List.cons_append, ascii_cons, ascii_append, quote_ascii k,
        print_ascii hfloat v, printMembers_ascii hfloat ms]
      decide

end

theorem utf8ByteSize_ofList {l : List Char} (h : Ascii l) :
    (String.ofList l).utf8ByteSize = l.length := by
  induction l with
  | nil => rfl
  | cons c l ih =>
      rw [ascii_cons] at h
      have hc : c.utf8Size = 1 := Char.utf8Size_eq_one_iff.mpr (by
        rw [UInt32.le_iff_toNat_le]
        exact Nat.le_of_lt_succ h.1)
      rw [String.ofList_cons, String.utf8ByteSize_append, String.utf8ByteSize_singleton, hc, ih h.2,
        List.length_cons]
      omega

/-- Encoding the text takes a byte for each character. -/
theorem utf8ByteSize_dumps (hfloat : ∀ x, Ascii (float_repr x).toList) (value : Json) :
    (dumps float_repr value).utf8ByteSize = size float_repr value :=
  utf8ByteSize_ofList (print_ascii hfloat value)

end Bytes

/-! ## Sizes -/

theorem length_escapeChar_pos (c : Char) : 0 < (escapeChar c).length := by
  unfold escapeChar
  split
  · simp
  · split
    · simp
    · split <;> simp [escapeUnit]

theorem length_quote (s : String) : s.length + 2 ≤ (quote s).length := by
  have hflat : ∀ l : List Char, l.length ≤ (l.flatMap escapeChar).length := by
    intro l
    induction l with
    | nil => exact Nat.le_refl _
    | cons c l ih =>
        have := length_escapeChar_pos c
        rw [List.flatMap_cons, List.length_append, List.length_cons]
        omega
  have := hflat s.toList
  rw [quote, List.length_append, List.length_cons, List.length_singleton, ← String.length_toList]
  omega

/-- What the keys of an object take, with the braces, the colons and the commas. -/
def frame (keys : List String) : Nat :=
  max 1 (keys.map fun k => (quote k).length + 2).sum + 1

theorem sum_add_one_le_frame (keys : List String) :
    (keys.map fun k => k.length + 4).sum + 1 ≤ frame keys := by
  have hsum : (keys.map fun k => k.length + 4).sum ≤
      (keys.map fun k => (quote k).length + 2).sum := by
    induction keys with
    | nil => exact Nat.le_refl _
    | cons k keys ih =>
        have := length_quote k
        simp only [List.map_cons, List.sum_cons]
        omega
  unfold frame
  omega

theorem le_frame (keys : List String) : 4 * keys.length + 1 ≤ frame keys := by
  have hsum : 4 * keys.length ≤ (keys.map fun k => k.length + 4).sum := by
    induction keys with
    | nil => exact Nat.le_refl _
    | cons k keys ih =>
        simp only [List.map_cons, List.sum_cons, List.length_cons]
        omega
  have := sum_add_one_le_frame keys
  omega

theorem le_frame_of_mem {keys : List String} {k : String} (h : k ∈ keys) :
    4 * keys.length + k.length + 1 ≤ frame keys := by
  have hsum : 4 * keys.length + k.length ≤ (keys.map fun k => k.length + 4).sum := by
    obtain ⟨before, after, rfl⟩ := List.append_of_mem h
    have hrest (l : List String) : 4 * l.length ≤ (l.map fun k => k.length + 4).sum := by
      induction l with
      | nil => exact Nat.le_refl _
      | cons k l ih =>
          simp only [List.map_cons, List.sum_cons, List.length_cons]
          omega
    have hbefore := hrest before
    have hafter := hrest after
    simp only [List.map_append, List.sum_append, List.map_cons, List.sum_cons,
      List.length_append, List.length_cons]
    omega
  have := sum_add_one_le_frame keys
  omega

section Sizes

variable (float_repr : Rat → String)

theorem length_printMembers (ms : List (String × Json)) :
    (printMembers float_repr ms).length =
      (ms.map fun m => (quote m.1).length + 2).sum + (ms.map fun m => size float_repr m.2).sum := by
  induction ms with
  | nil => rfl
  | cons m ms ih =>
      obtain ⟨k, v⟩ := m
      simp only [printMembers, List.length_append, List.length_cons, ih, List.map_cons,
        List.sum_cons, size]
      omega

/-- An object takes the room of its keys and that of its values. -/
theorem size_obj (ms : List (String × Json)) :
    size float_repr (.obj ms) =
      frame (ms.map Prod.fst) + (ms.map fun m => size float_repr m.2).sum := by
  cases ms with
  | nil => rfl
  | cons m ms =>
      obtain ⟨k, v⟩ := m
      simp only [size, print, List.length_append, List.length_cons, List.length_nil,
        length_printMembers, frame, List.map_cons, List.map_map, List.sum_cons, Function.comp_def]
      omega

theorem two_le_size_obj (ms : List (String × Json)) : 2 ≤ size float_repr (.obj ms) := by
  rw [size_obj, frame]
  omega

/-- Storing over a value exchanges its size for the other. -/
theorem size_set {d : Dict String Json} {k : String} {v : Json} (w : Json)
    (h : d.get? k = some v) :
    size float_repr (.obj (d.set k w).entries) + size float_repr v =
      size float_repr (.obj d.entries) + size float_repr w := by
  have hsum : ∀ l : List (String × Json), Dict.lookupL k l = some v →
      ((Dict.setL k w l).map fun m => size float_repr m.2).sum + size float_repr v =
        (l.map fun m => size float_repr m.2).sum + size float_repr w := by
    intro l hl
    induction l with
    | nil => cases hl
    | cons m l ih =>
        by_cases hk : m.1 = k
        · simp only [Dict.lookupL, if_pos hk, Option.some.injEq] at hl
          simp only [Dict.setL, if_pos hk, List.map_cons, List.sum_cons, hl]
          omega
        · simp only [Dict.lookupL, if_neg hk] at hl
          have := ih hl
          simp only [Dict.setL, if_neg hk, List.map_cons, List.sum_cons]
          omega
  have hkeys := Dict.keys_set_of_mem d w ((Dict.mem_keys_iff d).mpr ⟨v, h⟩)
  have := hsum d.entries h
  unfold Dict.keys at hkeys
  rw [size_obj, size_obj, hkeys]
  show _ + ((Dict.setL k w d.entries).map _).sum + _ = _
  omega

end Sizes

end CompactJson
