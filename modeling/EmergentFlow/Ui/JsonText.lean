import EmergentFlow.Lib.Dict
import EmergentFlow.Ui.Widgets

/-!
# Ui — JsonText

`JSON.stringify(value, null, 2)` and `JSON.parse` of the host, for values without lone
surrogates. How the host writes and reads a number is a parameter.

`parse_stringify` says that a value of a saved document comes back. The parser takes a
step of fuel for each value and each entry, and a text has room for as many as were written.
-/

namespace EmergentFlow.Widgets.JsonText

/-! ## Texts of strings -/

def quotation : Char := '\x22'

def backslash : Char := '\x5c'

def hexDigit (n : Nat) : Char :=
  if n < 10 then Char.ofNat ('0'.toNat + n) else Char.ofNat ('a'.toNat + (n - 10))

/-- The value of a hexadecimal digit of either case. -/
def hexValue (c : Char) : Option Nat :=
  let n := c.toNat
  if '0'.toNat ≤ n ∧ n ≤ '9'.toNat then some (n - '0'.toNat)
  else if 'A'.toNat ≤ n ∧ n ≤ 'F'.toNat then some (n - 'A'.toNat + 10)
  else if 'a'.toNat ≤ n ∧ n ≤ 'f'.toNat then some (n - 'a'.toNat + 10)
  else none

/-- The letters of the short escapes. -/
def escapes : List (Char × Char) :=
  [(quotation, quotation), (backslash, backslash), ('\x08', 'b'), ('\x0c', 'f'), ('\n', 'n'),
   ('\r', 'r'), ('\t', 't')]

def escapeChar (c : Char) : List Char :=
  match escapes.lookup c with
  | some letter => [backslash, letter]
  | none =>
      if c.toNat < 0x20 then
        [backslash, 'u', '0', '0', hexDigit (c.toNat / 16), hexDigit (c.toNat % 16)]
      else [c]

def quote (s : String) : List Char :=
  quotation :: s.toList.flatMap escapeChar ++ [quotation]

/-- Four hexadecimal digits. -/
def readUnit : List Char → Option (Nat × List Char)
  | a :: b :: c :: d :: rest => do
      let a ← hexValue a
      let b ← hexValue b
      let c ← hexValue c
      let d ← hexValue d
      some (((a * 16 + b) * 16 + c) * 16 + d, rest)
  | _ => none

/-- What follows the backslash; two units may be one character. -/
def readEscape : List Char → Option (Char × List Char)
  | 'u' :: rest => do
      let (high, rest) ← readUnit rest
      -- a character past the basic plane takes two units
      if 0xD800 ≤ high ∧ high < 0xDC00 then
        match rest with
        | c :: 'u' :: rest =>
            if c = backslash then do
              let (low, rest) ← readUnit rest
              if 0xDC00 ≤ low ∧ low < 0xE000 then
                some (Char.ofNat (0x10000 + (high - 0xD800) * 0x400 + (low - 0xDC00)), rest)
              else none
            else none
        | _ => none
      else if 0xDC00 ≤ high ∧ high < 0xE000 then none
      else some (Char.ofNat high, rest)
  | '/' :: rest => some ('/', rest)
  | letter :: rest => (escapes.find? fun e => e.2 = letter).map fun e => (e.1, rest)
  | [] => none

/-- The characters up to the closing quotation mark. -/
def readChars : Nat → List Char → Option (List Char × List Char)
  | 0, _ => none
  | _ + 1, [] => none
  | n + 1, c :: rest =>
      if c = quotation then some ([], rest)
      else if c = backslash then do
        let (c, rest) ← readEscape rest
        let (cs, rest) ← readChars n rest
        some (c :: cs, rest)
      else if c.toNat < 0x20 then none
      else do
        let (cs, rest) ← readChars n rest
        some (c :: cs, rest)

def readString (s : List Char) : Option (String × List Char) :=
  (readChars s.length s).map fun p => (String.ofList p.1, p.2)

/-! ## Numerals -/

def numeralChar (c : Char) : Bool := c.isDigit || ['+', '-', '.', 'e', 'E'].contains c

def digits (s : List Char) : Bool := s ≠ [] && s.all (·.isDigit)

/-- What may follow `e`. -/
def isExponent : List Char → Bool
  | '+' :: s => digits s
  | '-' :: s => digits s
  | s => digits s

/-- What may follow the digits before the point. -/
def isTail (s : List Char) : Bool :=
  let isScaled (s : List Char) : Bool :=
    match s with
    | [] => true
    | 'e' :: s => isExponent s
    | 'E' :: s => isExponent s
    | _ => false
  match s with
  | '.' :: s => s.takeWhile (·.isDigit) ≠ [] && isScaled (s.dropWhile (·.isDigit))
  | s => isScaled s

def isUnsigned : List Char → Bool
  | '0' :: s => isTail s
  | c :: s => c.isDigit && isTail (s.dropWhile (·.isDigit))
  | [] => false

/-- The numbers of the JSON grammar. -/
def isNumeral (s : List Char) : Bool :=
  s.all numeralChar &&
    match s with
    | '-' :: s => isUnsigned s
    | s => isUnsigned s

/-! ## Writing -/

def line (depth : Nat) : List Char := '\n' :: List.replicate (2 * depth) ' '

mutual

def print (host : Host) (depth : Nat) : JsValue → List Char
  | .null => "null".toList
  | .bool b => (if b then "true" else "false").toList
  | .num (.finite x) => (host.number_text (.finite x)).toList
  | .num (.infinite _) => "null".toList
  | .str s => quote s
  | .arr [] => ['[', ']']
  | .arr (v :: vs) =>
      '[' :: line (depth + 1) ++ print host (depth + 1) v ++ printItems host (depth + 1) vs ++
        line depth ++ [']']
  | .obj [] => ['\x7b', '\x7d']
  | .obj ((k, v) :: ms) =>
      '\x7b' :: line (depth + 1) ++ quote k ++ [':', ' '] ++ print host (depth + 1) v ++
        printMembers host (depth + 1) ms ++ line depth ++ ['\x7d']

def printItems (host : Host) (depth : Nat) : List JsValue → List Char
  | [] => []
  | v :: vs => ',' :: line depth ++ print host depth v ++ printItems host depth vs

def printMembers (host : Host) (depth : Nat) : List (String × JsValue) → List Char
  | [] => []
  | (k, v) :: ms =>
      ',' :: line depth ++ quote k ++ [':', ' '] ++ print host depth v ++ printMembers host depth ms

end

/-- `JSON.stringify(value, null, 2)`. -/
def stringify (host : Host) (value : JsValue) : String := String.ofList (print host 0 value)

/-! ## Reading -/

def isSpace (c : Char) : Bool := [' ', '\t', '\n', '\r'].contains c

def skip (s : List Char) : List Char := s.dropWhile isSpace

/-- A word or a number. -/
def readAtom (Number : String → Option JsNumber) (s : List Char) : Option (JsValue × List Char) :=
  if "null".toList.isPrefixOf s then some (.null, s.drop 4)
  else if "true".toList.isPrefixOf s then some (.bool true, s.drop 4)
  else if "false".toList.isPrefixOf s then some (.bool false, s.drop 5)
  else if isNumeral (s.takeWhile numeralChar) then
    (Number (String.ofList (s.takeWhile numeralChar))).map fun n =>
      (.num n, s.dropWhile numeralChar)
  else none

/-- A key and its colon. -/
def readKey (s : List Char) : Option (String × List Char) :=
  match skip s with
  | c :: rest =>
      if c = quotation then do
        let (key, rest) ← readString rest
        match skip rest with
        | ':' :: rest => some (key, rest)
        | _ => none
      else none
  | [] => none

mutual

def readValue (Number : String → Option JsNumber) : Nat → List Char → Option (JsValue × List Char)
  | 0, _ => none
  | n + 1, s =>
      match skip s with
      | [] => none
      | '[' :: rest =>
          match skip rest with
          | ']' :: rest => some (.arr [], rest)
          | _ => (readItems Number n rest).map fun p => (.arr p.1, p.2)
      | '\x7b' :: rest =>
          match skip rest with
          | '\x7d' :: rest => some (.obj [], rest)
          -- of two members with one key the later stands, in the place of the earlier
          | _ => (readMembers Number n rest).map fun p => (.obj (Dict.ofList p.1).entries, p.2)
      | c :: rest =>
          if c = quotation then (readString rest).map fun p => (.str p.1, p.2)
          else readAtom Number (c :: rest)

def readItems (Number : String → Option JsNumber) :
    Nat → List Char → Option (List JsValue × List Char)
  | 0, _ => none
  | n + 1, s => do
      let (v, s) ← readValue Number n s
      match skip s with
      | ',' :: s => do
          let (vs, s) ← readItems Number n s
          some (v :: vs, s)
      | ']' :: s => some ([v], s)
      | _ => none

def readMembers (Number : String → Option JsNumber) :
    Nat → List Char → Option (List (String × JsValue) × List Char)
  | 0, _ => none
  | n + 1, s => do
      let (k, s) ← readKey s
      let (v, s) ← readValue Number n s
      match skip s with
      | ',' :: s => do
          let (ms, s) ← readMembers Number n s
          some ((k, v) :: ms, s)
      | '\x7d' :: s => some ([(k, v)], s)
      | _ => none

end

/-- `JSON.parse`; nothing when it throws. -/
def parse (Number : String → Option JsNumber) (s : String) : Option JsValue := do
  let (value, rest) ← readValue Number (s.length + 1) s.toList
  if skip rest = [] then some value else none

/-! ## Strings come back -/

theorem hexValue_hexDigit : ∀ n < 16, hexValue (hexDigit n) = some n := by decide

theorem readEscape_letter {c letter : Char} (h : escapes.lookup c = some letter)
    (rest : List Char) : readEscape (letter :: rest) = some (c, rest) := by
  have hall : ∀ e ∈ escapes, ∀ rest, readEscape (e.2 :: rest) = some (e.1, rest) := by
    simp only [escapes, List.forall_mem_cons]
    exact ⟨fun _ => rfl, fun _ => rfl, fun _ => rfl, fun _ => rfl, fun _ => rfl, fun _ => rfl,
      fun _ => rfl, fun _ hnil => absurd hnil List.not_mem_nil⟩
  obtain ⟨l, l', hl, -⟩ := List.lookup_eq_some_iff.mp h
  exact hall (c, letter) (hl ▸ List.mem_append_right _ List.mem_cons_self) rest

theorem readEscape_unit {c : Char} (h : c.toNat < 0x20) (rest : List Char) :
    readEscape ('u' :: '0' :: '0' :: hexDigit (c.toNat / 16) :: hexDigit (c.toNat % 16) :: rest) =
      some (c, rest) := by
  have hzero : hexValue '0' = some 0 := by decide
  have hvalue : ((0 * 16 + 0) * 16 + c.toNat / 16) * 16 + c.toNat % 16 = c.toNat := by omega
  simp only [readEscape, readUnit, hzero, hexValue_hexDigit (c.toNat / 16) (by omega),
    hexValue_hexDigit (c.toNat % 16) (Nat.mod_lt _ (by decide)), Option.bind_eq_bind,
    Option.bind_some, hvalue, Char.ofNat_toNat]
  rw [if_neg (by omega), if_neg (by omega)]

theorem readChars_escapeChar (n : Nat) (c : Char) (rest : List Char) :
    readChars (n + 1) (escapeChar c ++ rest) =
      (readChars n rest).map fun p => (c :: p.1, p.2) := by
  have hbackslash : backslash ≠ quotation := by decide
  rw [escapeChar]
  cases hlookup : escapes.lookup c with
  | some letter =>
      simp only [List.cons_append, List.nil_append, readChars, if_neg hbackslash, if_true,
        readEscape_letter hlookup, Option.bind_eq_bind, Option.bind_some]
      cases readChars n rest <;> rfl
  | none =>
      by_cases hcontrol : c.toNat < 0x20
      · simp only [if_pos hcontrol, List.cons_append, List.nil_append, readChars, if_neg hbackslash,
          if_true, readEscape_unit hcontrol, Option.bind_eq_bind, Option.bind_some]
        cases readChars n rest <;> rfl
      · have hquotation : c ≠ quotation := by
          rintro rfl
          cases hlookup
        have hbackslash' : c ≠ backslash := by
          rintro rfl
          cases hlookup
        simp only [if_neg hcontrol, List.cons_append, List.nil_append, readChars,
          if_neg hquotation, if_neg hbackslash', Option.bind_eq_bind]
        cases readChars n rest <;> rfl

theorem readChars_quoted {n : Nat} {cs : List Char} (hn : cs.length < n) (rest : List Char) :
    readChars n (cs.flatMap escapeChar ++ quotation :: rest) = some (cs, rest) := by
  induction cs generalizing n with
  | nil =>
      obtain ⟨n, rfl⟩ := Nat.exists_eq_add_of_lt hn
      simp [readChars]
  | cons c cs ih =>
      obtain ⟨n, rfl⟩ := Nat.exists_eq_add_of_lt hn
      rw [List.flatMap_cons, List.append_assoc, readChars_escapeChar, ih (by simp; omega)]
      rfl

theorem escapeChar_ne_nil (c : Char) : escapeChar c ≠ [] := by
  rw [escapeChar]
  split
  · exact List.cons_ne_nil _ _
  · split <;> exact List.cons_ne_nil _ _

theorem length_le_flatMap_escapeChar (cs : List Char) :
    cs.length ≤ (cs.flatMap escapeChar).length := by
  induction cs with
  | nil => exact Nat.le_refl _
  | cons c cs ih =>
      have := List.length_pos_iff.mpr (escapeChar_ne_nil c)
      rw [List.flatMap_cons, List.length_append, List.length_cons]
      omega

/-- The text of a string, from behind its opening quotation mark. -/
theorem readString_quoted (s : String) (rest : List Char) :
    readString (s.toList.flatMap escapeChar ++ quotation :: rest) = some (s, rest) := by
  have hlength := length_le_flatMap_escapeChar s.toList
  rw [readString, readChars_quoted (by simp only [List.length_append, List.length_cons]; omega),
    Option.map_some, String.ofList_toList]

/-! ## Values come back -/

/-- How the host writes its numbers and reads them. -/
structure Numerals (host : Host) (double : JsNumber → Prop) : Prop where
  finite : ∀ n, double n → ∃ x, n = .finite x
  literal : ∀ n, double n → isNumeral (host.number_text n).toList = true
  read : ∀ n, double n → host.Number (host.number_text n) = some n

mutual

/-- A value of a document: its numbers are numbers of the host, and no object has a key twice. -/
def Stored (double : JsNumber → Prop) : JsValue → Prop
  | .num n => double n
  | .arr items => StoredItems double items
  | .obj members => (members.map Prod.fst).Nodup ∧ StoredMembers double members
  | _ => True

def StoredItems (double : JsNumber → Prop) : List JsValue → Prop
  | [] => True
  | v :: vs => Stored double v ∧ StoredItems double vs

def StoredMembers (double : JsNumber → Prop) : List (String × JsValue) → Prop
  | [] => True
  | (_, v) :: ms => Stored double v ∧ StoredMembers double ms

end

mutual

/-- How many steps reading takes. -/
def weight : JsValue → Nat
  | .arr items => 1 + weightItems items
  | .obj members => 1 + weightMembers members
  | _ => 1

def weightItems : List JsValue → Nat
  | [] => 0
  | v :: vs => 1 + weight v + weightItems vs

def weightMembers : List (String × JsValue) → Nat
  | [] => 0
  | (_, v) :: ms => 1 + weight v + weightMembers ms

end

/-- Nothing that would go on with a number. -/
def Ends (r : List Char) : Prop := ∀ c ∈ r.head?, numeralChar c = false

theorem skip_line (d : Nat) (s : List Char) : skip (line d ++ s) = skip s := by
  rw [skip, line, List.cons_append, List.dropWhile_cons_of_pos (by decide),
    List.dropWhile_append_of_pos]
  · rfl
  · intro c hc
    rw [(List.mem_replicate.mp hc).2]
    decide

theorem skip_cons {c : Char} (hc : isSpace c = false) (s : List Char) : skip (c :: s) = c :: s :=
  List.dropWhile_cons_of_neg (by rw [hc]; exact Bool.false_ne_true)

theorem readValue_line (host : Host) (n d : Nat) (s : List Char) :
    readValue host.Number n (line d ++ s) = readValue host.Number n s := by
  cases n with
  | zero => rfl
  | succ n => rw [readValue, readValue, skip_line]

theorem readKey_line (d : Nat) (s : List Char) : readKey (line d ++ s) = readKey s := by
  rw [readKey, readKey, skip_line]

theorem readItems_line (host : Host) (n d : Nat) (s : List Char) :
    readItems host.Number n (line d ++ s) = readItems host.Number n s := by
  cases n with
  | zero => rfl
  | succ n => rw [readItems, readItems, readValue_line]

theorem readMembers_line (host : Host) (n d : Nat) (s : List Char) :
    readMembers host.Number n (line d ++ s) = readMembers host.Number n s := by
  cases n with
  | zero => rfl
  | succ n => rw [readMembers, readMembers, readKey_line]

theorem isNumeral_head {s : List Char} (h : isNumeral s = true) :
    ∃ c rest, s = c :: rest ∧ (c = '-' ∨ c.isDigit = true) := by
  unfold isNumeral at h
  rw [Bool.and_eq_true] at h
  have hunsigned : ∀ {s : List Char}, isUnsigned s = true → ∃ c rest, s = c :: rest ∧
      c.isDigit = true := by
    intro s hs
    match s with
    | [] => cases hs
    | c :: rest =>
        by_cases hc : c = '0'
        · exact ⟨c, rest, rfl, by rw [hc]; decide⟩
        · rw [isUnsigned, Bool.and_eq_true] at hs
          · exact ⟨c, rest, rfl, hs.1⟩
          · exact hc
  match s with
  | [] => cases h.2
  | c :: rest =>
      by_cases hc : c = '-'
      · exact ⟨c, rest, rfl, .inl hc⟩
      · obtain ⟨c', rest', heq, hdigit⟩ := @hunsigned (c :: rest) (by
          have := h.2
          split at this
          · next heq => exact absurd (List.cons.inj heq).1 hc
          · exact this)
        exact ⟨c', rest', heq, .inr hdigit⟩

theorem readAtom_numeral {host : Host} {s r : List Char} {n : JsNumber}
    (hs : isNumeral s = true) (hread : host.Number (String.ofList s) = some n) (hr : Ends r) :
    readAtom host.Number (s ++ r) = some (.num n, r) := by
  have hall : ∀ c ∈ s, numeralChar c = true := by
    unfold isNumeral at hs
    exact List.all_eq_true.mp (Bool.and_eq_true_iff.mp hs).1
  have htake : (s ++ r).takeWhile numeralChar = s := by
    rw [List.takeWhile_append_of_pos hall]
    cases r with
    | nil => simp
    | cons c r =>
        rw [List.takeWhile_cons_of_neg (by rw [hr c rfl]; exact Bool.false_ne_true)]
        simp
  have hdrop : (s ++ r).dropWhile numeralChar = r := by
    rw [List.dropWhile_append_of_pos hall]
    cases r with
    | nil => rfl
    | cons c r => exact List.dropWhile_cons_of_neg (by rw [hr c rfl]; exact Bool.false_ne_true)
  obtain ⟨c, rest, rfl, hc⟩ := isNumeral_head hs
  -- a numeral starts with none of the letters of the words
  have hword : c ≠ 'n' ∧ c ≠ 't' ∧ c ≠ 'f' := by
    rcases hc with rfl | hc
    · decide
    · refine ⟨?_, ?_, ?_⟩ <;> (rintro rfl; revert hc; decide)
  have hnull : "null".toList.isPrefixOf (c :: rest ++ r) = false := by
    simp [List.isPrefixOf, Ne.symm hword.1]
  have htrue : "true".toList.isPrefixOf (c :: rest ++ r) = false := by
    simp [List.isPrefixOf, Ne.symm hword.2.1]
  have hfalse : "false".toList.isPrefixOf (c :: rest ++ r) = false := by
    simp [List.isPrefixOf, Ne.symm hword.2.2]
  rw [readAtom, hnull, htrue, hfalse, htake, hdrop, hs, hread]
  rfl

theorem quote_append (s : String) (r : List Char) :
    quote s ++ r = quotation :: (s.toList.flatMap escapeChar ++ quotation :: r) := by
  simp [quote]

theorem readKey_quote (k : String) (s : List Char) :
    readKey (quote k ++ [':', ' '] ++ s) = some (k, ' ' :: s) := by
  rw [List.append_assoc, quote_append, readKey, skip_cons (by decide)]
  simp only [if_true, readString_quoted, Option.bind_eq_bind, Option.bind_some, List.cons_append,
    List.nil_append]
  rw [skip_cons (by decide)]
  rfl

theorem readValue_space (host : Host) (n : Nat) (s : List Char) :
    readValue host.Number n (' ' :: s) = readValue host.Number n s := by
  cases n with
  | zero => rfl
  | succ n =>
      have hskip : skip (' ' :: s) = skip s := List.dropWhile_cons_of_pos (by decide)
      rw [readValue, readValue, hskip]

variable {host : Host} {double : JsNumber → Prop}

/-- A number starts nothing else. -/
theorem numeral_start {c : Char} (hc : c = '-' ∨ c.isDigit = true) :
    isSpace c = false ∧ c ≠ ']' ∧ c ≠ '[' ∧ c ≠ '\x7b' ∧ c ≠ quotation := by
  rcases hc with rfl | hc
  · decide
  · have hne : ∀ c' : Char, c'.isDigit = false → c ≠ c' := by
      rintro c' hc' rfl
      rw [hc] at hc'
      cases hc'
    refine ⟨?_, hne _ (by decide), hne _ (by decide), hne _ (by decide), hne _ (by decide)⟩
    simp [isSpace, hne ' ' (by decide), hne '\t' (by decide), hne '\n' (by decide),
      hne '\r' (by decide)]

/-- A text starts with no space and closes nothing. -/
theorem print_head (hhost : Numerals host double) {v : JsValue} (hv : Stored double v) (d : Nat) :
    ∃ c rest, print host d v = c :: rest ∧ isSpace c = false ∧ c ≠ ']' := by
  cases v with
  | null => exact ⟨'n', _, rfl, by decide, by decide⟩
  | bool b => cases b <;> exact ⟨_, _, rfl, by decide, by decide⟩
  | num n =>
      obtain ⟨x, rfl⟩ := hhost.finite n hv
      obtain ⟨c, rest, heq, hc⟩ := isNumeral_head (hhost.literal _ hv)
      exact ⟨c, rest, heq, (numeral_start hc).1, (numeral_start hc).2.1⟩
  | str s => exact ⟨_, _, rfl, by decide, by decide⟩
  | arr items => cases items <;> exact ⟨_, _, rfl, by decide, by decide⟩
  | obj members => cases members <;> exact ⟨_, _, rfl, by decide, by decide⟩

theorem ends_items (d d' : Nat) (vs : List JsValue) (r : List Char) :
    Ends (printItems host d vs ++ (line d' ++ ']' :: r)) := by
  cases vs <;> (intro c hc; cases hc; decide)

theorem ends_members (d d' : Nat) (ms : List (String × JsValue)) (r : List Char) :
    Ends (printMembers host d ms ++ (line d' ++ '\x7d' :: r)) := by
  rcases ms with _ | ⟨⟨k, v⟩, ms⟩ <;> (intro c hc; cases hc; decide)

theorem readValue_atom {c : Char} (hspace : isSpace c = false) (hlist : c ≠ '[')
    (hobject : c ≠ '\x7b') (hstring : c ≠ quotation) (n : Nat) (rest : List Char) :
    readValue host.Number (n + 1) (c :: rest) = readAtom host.Number (c :: rest) := by
  rw [readValue, skip_cons hspace]
  split
  · next heq => cases heq
  · next heq => exact absurd (List.cons.inj heq).1 hlist
  · next heq => exact absurd (List.cons.inj heq).1 hobject
  · next heq =>
      obtain ⟨rfl, rfl⟩ := List.cons.inj heq
      rw [if_neg hstring]

theorem readValue_string (n : Nat) (rest : List Char) :
    readValue host.Number (n + 1) (quotation :: rest) =
      (readString rest).map fun p => (.str p.1, p.2) := by
  rw [readValue, skip_cons (by decide)]
  rfl

/-- A list that does not close at once. -/
theorem readValue_list {c : Char} {rest more : List Char} (hskip : skip rest = c :: more)
    (hc : c ≠ ']') (n : Nat) :
    readValue host.Number (n + 1) ('[' :: rest) =
      (readItems host.Number n rest).map fun p => (.arr p.1, p.2) := by
  rw [readValue, skip_cons (by decide)]
  simp only [hskip]
  split
  · next heq => exact absurd (List.cons.inj heq).1 hc
  · rfl

theorem readValue_object {c : Char} {rest more : List Char} (hskip : skip rest = c :: more)
    (hc : c ≠ '\x7d') (n : Nat) :
    readValue host.Number (n + 1) ('\x7b' :: rest) =
      (readMembers host.Number n rest).map fun p => (.obj (Dict.ofList p.1).entries, p.2) := by
  rw [readValue, skip_cons (by decide)]
  simp only [hskip]
  split
  · next heq => exact absurd (List.cons.inj heq).1 hc
  · rfl

theorem readAtom_null (r : List Char) :
    readAtom host.Number ('n' :: 'u' :: 'l' :: 'l' :: r) = some (.null, r) := by
  simp [readAtom]

theorem readAtom_true (r : List Char) :
    readAtom host.Number ('t' :: 'r' :: 'u' :: 'e' :: r) = some (.bool true, r) := by
  simp [readAtom]

theorem readAtom_false (r : List Char) :
    readAtom host.Number ('f' :: 'a' :: 'l' :: 's' :: 'e' :: r) = some (.bool false, r) := by
  simp [readAtom]

/-- What reads back within `n` steps: a value, the rest of a list, the rest of an object. -/
structure Reads (host : Host) (double : JsNumber → Prop) (n : Nat) : Prop where
  value : ∀ (v : JsValue) (d : Nat) (r : List Char), Stored double v → weight v ≤ n → Ends r →
    readValue host.Number n (print host d v ++ r) = some (v, r)
  items : ∀ (v : JsValue) (vs : List JsValue) (d d' : Nat) (r : List Char), Stored double v →
    StoredItems double vs → weightItems (v :: vs) ≤ n →
      readItems host.Number n (print host d v ++ (printItems host d vs ++ (line d' ++ ']' :: r))) =
        some (v :: vs, r)
  members : ∀ (k : String) (v : JsValue) (ms : List (String × JsValue)) (d d' : Nat)
    (r : List Char), Stored double v → StoredMembers double ms → weightMembers ((k, v) :: ms) ≤ n →
      readMembers host.Number n (quote k ++ [':', ' '] ++ (print host d v ++
        (printMembers host d ms ++ (line d' ++ '\x7d' :: r)))) = some ((k, v) :: ms, r)

theorem readValue_number (hhost : Numerals host double) {m : JsNumber} (hm : double m) (n : Nat)
    (d : Nat) {r : List Char} (hr : Ends r) :
    readValue host.Number (n + 1) (print host d (.num m) ++ r) = some (.num m, r) := by
  obtain ⟨x, rfl⟩ := hhost.finite m hm
  have hnumeral := hhost.literal _ hm
  have hread : host.Number (String.ofList (host.number_text (.finite x)).toList) =
      some (.finite x) := by
    rw [String.ofList_toList]
    exact hhost.read _ hm
  have hatom := readAtom_numeral hnumeral hread hr
  obtain ⟨c, rest, heq, hc⟩ := isNumeral_head hnumeral
  obtain ⟨hspace, -, hlist, hobject, hstring⟩ := numeral_start hc
  rw [print]
  rw [heq] at hatom ⊢
  exact (readValue_atom hspace hlist hobject hstring n _).trans hatom

theorem Reads.list_succ (hhost : Numerals host double) {n : Nat} (h : Reads host double n)
    {v : JsValue} {vs : List JsValue} (d : Nat) (r : List Char) (hv : Stored double v)
    (hvs : StoredItems double vs) (hn : weightItems (v :: vs) ≤ n) :
    readValue host.Number (n + 1) (print host d (.arr (v :: vs)) ++ r) =
      some (.arr (v :: vs), r) := by
  obtain ⟨c, rest, hprint, hspace, hclose⟩ := print_head hhost hv (d + 1)
  have htext : print host d (.arr (v :: vs)) ++ r = '[' :: (line (d + 1) ++
      (print host (d + 1) v ++ (printItems host (d + 1) vs ++ (line d ++ ']' :: r)))) := by
    simp only [print, List.cons_append, List.append_assoc, List.nil_append]
  have hskip : skip (line (d + 1) ++ (print host (d + 1) v ++
      (printItems host (d + 1) vs ++ (line d ++ ']' :: r)))) = c :: (rest ++
        (printItems host (d + 1) vs ++ (line d ++ ']' :: r))) := by
    rw [skip_line, hprint, List.cons_append, skip_cons hspace]
  rw [htext, readValue_list hskip hclose, readItems_line,
    h.items v vs (d + 1) d r hv hvs hn, Option.map_some]

theorem Reads.object_succ {n : Nat} (h : Reads host double n) {k : String} {v : JsValue}
    {ms : List (String × JsValue)} (d : Nat) (r : List Char)
    (hkeys : (((k, v) :: ms).map Prod.fst).Nodup) (hv : Stored double v)
    (hms : StoredMembers double ms) (hn : weightMembers ((k, v) :: ms) ≤ n) :
    readValue host.Number (n + 1) (print host d (.obj ((k, v) :: ms)) ++ r) =
      some (.obj ((k, v) :: ms), r) := by
  have htext : print host d (.obj ((k, v) :: ms)) ++ r = '\x7b' :: (line (d + 1) ++
      (quote k ++ [':', ' '] ++ (print host (d + 1) v ++
        (printMembers host (d + 1) ms ++ (line d ++ '\x7d' :: r))))) := by
    simp only [print, List.cons_append, List.append_assoc, List.nil_append]
  have hskip : ∃ more, skip (line (d + 1) ++ (quote k ++ [':', ' '] ++
      (print host (d + 1) v ++ (printMembers host (d + 1) ms ++ (line d ++ '\x7d' :: r))))) =
        quotation :: more := by
    rw [skip_line, List.append_assoc, quote_append, skip_cons (by decide)]
    exact ⟨_, rfl⟩
  obtain ⟨more, hskip⟩ := hskip
  rw [htext, readValue_object hskip (by decide), readMembers_line,
    h.members k v ms (d + 1) d r hv hms hn, Option.map_some, Dict.entries_ofList hkeys]

theorem Reads.value_succ (hhost : Numerals host double) {n : Nat} (h : Reads host double n)
    (v : JsValue) (d : Nat) (r : List Char) (hv : Stored double v) (hn : weight v ≤ n + 1)
    (hr : Ends r) : readValue host.Number (n + 1) (print host d v ++ r) = some (v, r) := by
  have hatom {c : Char} (rest : List Char) (hspace : isSpace c = false) (hlist : c ≠ '[')
      (hobject : c ≠ '\x7b') (hstring : c ≠ quotation) :=
    @readValue_atom host _ hspace hlist hobject hstring n rest
  cases v with
  | null => exact (hatom _ (by decide) (by decide) (by decide) (by decide)).trans (readAtom_null r)
  | bool b =>
      cases b with
      | true =>
          exact (hatom _ (by decide) (by decide) (by decide) (by decide)).trans (readAtom_true r)
      | false =>
          exact (hatom _ (by decide) (by decide) (by decide) (by decide)).trans (readAtom_false r)
  | num m => exact readValue_number hhost hv n d hr
  | str s => rw [print, quote_append, readValue_string, readString_quoted, Option.map_some]
  | arr items =>
      cases items with
      | nil => rfl
      | cons v vs =>
          simp only [weight] at hn
          exact h.list_succ hhost d r hv.1 hv.2 (by omega)
  | obj members =>
      rcases members with _ | ⟨⟨k, v⟩, ms⟩
      · rfl
      · simp only [weight] at hn
        exact h.object_succ d r hv.1 hv.2.1 hv.2.2 (by omega)

theorem Reads.items_succ {n : Nat} (h : Reads host double n)
    (v : JsValue) (vs : List JsValue) (d d' : Nat) (r : List Char) (hv : Stored double v)
    (hvs : StoredItems double vs) (hn : weightItems (v :: vs) ≤ n + 1) :
    readItems host.Number (n + 1)
        (print host d v ++ (printItems host d vs ++ (line d' ++ ']' :: r))) =
      some (v :: vs, r) := by
  simp only [weightItems] at hn
  rw [readItems, h.value v d _ hv (by omega) (ends_items d d' vs r)]
  cases vs with
  | nil =>
      simp only [Option.bind_eq_bind, Option.bind_some, printItems, List.nil_append, skip_line,
        skip_cons (show isSpace ']' = false by decide)]
  | cons w vs =>
      have hrest := h.items w vs d d' r hvs.1 hvs.2 (by omega)
      simp only [Option.bind_eq_bind, Option.bind_some, printItems, List.cons_append,
        List.append_assoc, skip_cons (show isSpace ',' = false by decide), readItems_line, hrest]

theorem Reads.members_succ {n : Nat} (h : Reads host double n)
    (k : String) (v : JsValue) (ms : List (String × JsValue)) (d d' : Nat) (r : List Char)
    (hv : Stored double v) (hvs : StoredMembers double ms)
    (hn : weightMembers ((k, v) :: ms) ≤ n + 1) :
    readMembers host.Number (n + 1) (quote k ++ [':', ' '] ++ (print host d v ++
      (printMembers host d ms ++ (line d' ++ '\x7d' :: r)))) = some ((k, v) :: ms, r) := by
  simp only [weightMembers] at hn
  rw [readMembers, readKey_quote]
  simp only [Option.bind_eq_bind, Option.bind_some, readValue_space]
  rw [h.value v d _ hv (by omega) (ends_members d d' ms r)]
  rcases ms with _ | ⟨⟨k', w⟩, ms⟩
  · simp only [Option.bind_some, printMembers, List.nil_append, skip_line,
      skip_cons (show isSpace '\x7d' = false by decide)]
  · have hrest := h.members k' w ms d d' r hvs.1 hvs.2 (by simp only [weightMembers] at hn ⊢; omega)
    simp only [List.append_assoc, List.cons_append, List.nil_append] at hrest
    simp only [Option.bind_some, printMembers, List.cons_append, List.nil_append,
      List.append_assoc, skip_cons (show isSpace ',' = false by decide), readMembers_line, hrest]

theorem reads (hhost : Numerals host double) (n : Nat) : Reads host double n := by
  induction n with
  | zero =>
      refine ⟨fun v _ _ _ hn => ?_, fun v vs _ _ _ _ _ hn => ?_, fun k v ms _ _ _ _ _ hn => ?_⟩
      · cases v <;> simp [weight] at hn
      · simp [weightItems] at hn
      · simp [weightMembers] at hn
  | succ n ih => exact ⟨ih.value_succ hhost, ih.items_succ, ih.members_succ⟩

mutual

/-- A text is at least as long as the steps that reading it takes. -/
theorem weight_le (hhost : Numerals host double) (d : Nat) :
    ∀ v : JsValue, Stored double v → weight v ≤ (print host d v).length
  | .null, _ => by simp [weight, print]
  | .bool b, _ => by cases b <;> simp [weight, print]
  | .num m, hv => by
      obtain ⟨x, rfl⟩ := hhost.finite m hv
      obtain ⟨c, rest, heq, -⟩ := isNumeral_head (hhost.literal _ hv)
      rw [print, heq]
      simp [weight]
  | .str s, _ => by simp [weight, print, quote]
  | .arr [], _ => by simp [weight, weightItems, print]
  | .arr (v :: vs), hv => by
      have := weight_le hhost (d + 1) v hv.1
      have := weightItems_le hhost (d + 1) vs hv.2
      simp only [weight, weightItems, print, List.length_cons, List.length_append, line]
      omega
  | .obj [], _ => by simp [weight, weightMembers, print]
  | .obj ((k, v) :: ms), hv => by
      have := weight_le hhost (d + 1) v hv.2.1
      have := weightMembers_le hhost (d + 1) ms hv.2.2
      simp only [weight, weightMembers, print, List.length_cons, List.length_append, line]
      omega

theorem weightItems_le (hhost : Numerals host double) (d : Nat) :
    ∀ vs : List JsValue, StoredItems double vs → weightItems vs ≤ (printItems host d vs).length
  | [], _ => Nat.zero_le _
  | v :: vs, hv => by
      have := weight_le hhost d v hv.1
      have := weightItems_le hhost d vs hv.2
      simp only [weightItems, printItems, List.length_cons, List.length_append]
      omega

theorem weightMembers_le (hhost : Numerals host double) (d : Nat) :
    ∀ ms : List (String × JsValue), StoredMembers double ms →
      weightMembers ms ≤ (printMembers host d ms).length
  | [], _ => Nat.zero_le _
  | (_, v) :: ms, hv => by
      have := weight_le hhost d v hv.1
      have := weightMembers_le hhost d ms hv.2
      simp only [weightMembers, printMembers, List.length_cons, List.length_append]
      omega

end

/-- A value of a document comes back from its text. -/
theorem parse_stringify (hhost : Numerals host double) {v : JsValue} (hv : Stored double v) :
    parse host.Number (stringify host v) = some v := by
  have hlength : (stringify host v).length = (print host 0 v).length := by
    rw [stringify, String.length_ofList]
  have hread := (reads hhost ((stringify host v).length + 1)).value v 0 [] hv
    (by have := weight_le hhost 0 v hv; omega) nofun
  rw [List.append_nil] at hread
  rw [parse, stringify, String.toList_ofList, ← stringify, hread]
  rfl

end EmergentFlow.Widgets.JsonText
