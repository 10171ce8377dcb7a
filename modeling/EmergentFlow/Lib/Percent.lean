import Mathlib.Data.List.Basic

/-!
# Percent — percent-encoding of UTF-8

Texts are lists of code points; a surrogate that is not half of a pair is a
code point of its own, which no UTF-8 encodes. The decoder takes one character
at a time and fails at the first escape that is malformed or no UTF-8. It
undoes every encoder that escapes the percent sign (`decode_encode`).
-/

namespace Percent

inductive CodePoint where
  | scalar (c : Char)
  | surrogate (code : Nat)
  deriving DecidableEq, Repr

abbrev Text : Type := List CodePoint

def text (s : String) : Text := s.toList.map .scalar

/-! ## Octets -/

def hexDigit (n : Nat) : Char :=
  if n < 10 then Char.ofNat ('0'.toNat + n) else Char.ofNat ('A'.toNat + (n - 10))

/-- The value of a hexadecimal digit of either case. -/
def hexValue (c : Char) : Option Nat :=
  let n := c.toNat
  if '0'.toNat ≤ n ∧ n ≤ '9'.toNat then some (n - '0'.toNat)
  else if 'A'.toNat ≤ n ∧ n ≤ 'F'.toNat then some (n - 'A'.toNat + 10)
  else if 'a'.toNat ≤ n ∧ n ≤ 'f'.toNat then some (n - 'a'.toNat + 10)
  else none

/-- `%XX`. -/
def octet (b : UInt8) : Text :=
  [.scalar '%', .scalar (hexDigit (b.toNat / 16)), .scalar (hexDigit (b.toNat % 16))]

def takeOctet : Text → Option (UInt8 × Text)
  | .scalar '%' :: .scalar high :: .scalar low :: rest => do
      let h ← hexValue high
      let l ← hexValue low
      some (UInt8.ofNat (h * 16 + l), rest)
  | _ => none

def takeOctets : Nat → Text → Option (List UInt8 × Text)
  | 0, s => some ([], s)
  | n + 1, s => do
      let (b, s) ← takeOctet s
      let (bs, s) ← takeOctets n s
      some (b :: bs, s)

theorem hexValue_hexDigit : ∀ n < 16, hexValue (hexDigit n) = some n := by decide

theorem takeOctet_octet (b : UInt8) (rest : Text) :
    takeOctet (octet b ++ rest) = some (b, rest) := by
  have hhigh : b.toNat / 16 < 16 := by have := b.toNat_lt; omega
  have hvalue : b.toNat / 16 * 16 + b.toNat % 16 = b.toNat := by omega
  simp only [octet, List.cons_append, List.nil_append, takeOctet, hexValue_hexDigit _ hhigh,
    hexValue_hexDigit _ (Nat.mod_lt _ (by decide)), Option.bind_eq_bind, Option.bind_some, hvalue,
    UInt8.ofNat_toNat]

theorem takeOctets_octets (bs : List UInt8) (rest : Text) :
    takeOctets bs.length (bs.flatMap octet ++ rest) = some (bs, rest) := by
  induction bs with
  | nil => rfl
  | cons b bs ih =>
      rw [List.length_cons, List.flatMap_cons, List.append_assoc, takeOctets, takeOctet_octet]
      simp only [Option.bind_eq_bind, Option.bind_some, ih]

/-! ## Characters -/

/-- How many octets follow a first one. -/
def following (b : UInt8) : Option Nat :=
  if b &&& 0x80 = 0 then some 0
  else if b &&& 0xE0 = 0xC0 then some 1
  else if b &&& 0xF0 = 0xE0 then some 2
  else if b &&& 0xF8 = 0xF0 then some 3
  else none

/-- The character that the escapes at the front stand for. -/
def takeChar (s : Text) : Option (Char × Text) := do
  let (b, s) ← takeOctet s
  let n ← following b
  let (bs, s) ← takeOctets n s
  let c ← (b :: bs).toByteArray.utf8DecodeChar? 0
  some (c, s)

theorem length_takeOctet {s rest : Text} {b : UInt8} (h : takeOctet s = some (b, rest)) :
    rest.length < s.length := by
  unfold takeOctet at h
  split at h
  · simp only [Option.bind_eq_bind, Option.bind_eq_some_iff, Option.some.injEq, Prod.mk.injEq] at h
    obtain ⟨_, _, _, _, _, rfl⟩ := h
    simp only [List.length_cons]
    omega
  · cases h

theorem length_takeOctets {n : Nat} {s rest : Text} {bs : List UInt8}
    (h : takeOctets n s = some (bs, rest)) : rest.length ≤ s.length := by
  induction n generalizing s bs with
  | zero =>
      cases h
      exact Nat.le_refl _
  | succ n ih =>
      simp only [takeOctets, Option.bind_eq_bind, Option.bind_eq_some_iff] at h
      obtain ⟨⟨b, more⟩, hfirst, ⟨bs', rest'⟩, hrest, heq⟩ := h
      cases heq
      exact Nat.le_trans (ih hrest) (Nat.le_of_lt (length_takeOctet hfirst))

theorem length_takeChar {s rest : Text} {c : Char} (h : takeChar s = some (c, rest)) :
    rest.length < s.length := by
  simp only [takeChar, Option.bind_eq_bind, Option.bind_eq_some_iff] at h
  obtain ⟨⟨b, more⟩, hfirst, n, -, ⟨bs, rest'⟩, hrest, c', -, heq⟩ := h
  cases heq
  exact Nat.lt_of_le_of_lt (length_takeOctets hrest) (length_takeOctet hfirst)

/-- What a text stands for; code points that are no percent sign stand for themselves. -/
def decode (s : Text) : Option Text :=
  match s with
  | [] => some []
  | .scalar '%' :: rest =>
      match _h : takeChar (.scalar '%' :: rest) with
      | none => none
      | some (c, more) => (decode more).map (.scalar c :: ·)
  | a :: rest => (decode rest).map (a :: ·)
termination_by s.length
decreasing_by
  · exact length_takeChar _h
  · simp

def encodeChar (safe : Char → Bool) (c : Char) : Text :=
  if safe c then [.scalar c] else (String.utf8EncodeChar c).flatMap octet

/-- The escaped text, unless a surrogate is in it. -/
def encode (safe : Char → Bool) : Text → Option Text
  | [] => some []
  | .scalar c :: rest => (encode safe rest).map (encodeChar safe c ++ ·)
  | .surrogate _ :: _ => none

/-! ## The round trip -/

theorem following_first {b : UInt8} (h : b.IsUTF8FirstByte) :
    following b = some (b.utf8ByteSize h - 1) := by
  rw [following, UInt8.utf8ByteSize]
  split
  · rfl
  split
  · rfl
  split
  · rfl
  rename_i h1 h2 h3
  rw [if_pos (((h.resolve_left h1).resolve_left h2).resolve_left h3)]

theorem utf8DecodeChar?_encode (c : Char) :
    (String.utf8EncodeChar c).toByteArray.utf8DecodeChar? 0 = some c := by
  have h := @ByteArray.utf8DecodeChar?_utf8EncodeChar_append .empty c
  rwa [ByteArray.append_empty] at h

/-- The octets of a character: a first one that says how many follow. -/
theorem utf8EncodeChar_cons (c : Char) :
    ∃ b bs, String.utf8EncodeChar c = b :: bs ∧ following b = some bs.length := by
  have hpos := c.utf8Size_pos
  obtain ⟨b, bs, hbytes⟩ := List.exists_cons_of_ne_nil (@String.utf8EncodeChar_ne_nil c)
  have hlength : bs.length + 1 = c.utf8Size := by
    rw [← String.length_utf8EncodeChar, hbytes, List.length_cons]
  have hsome : ((b :: bs).toByteArray.utf8DecodeChar? 0).isSome := by
    rw [← hbytes, utf8DecodeChar?_encode]
    rfl
  have hchar : (b :: bs).toByteArray.utf8DecodeChar 0 hsome = c := by
    rw [ByteArray.utf8DecodeChar, Option.get_of_eq_some]
    rw [← hbytes, utf8DecodeChar?_encode]
  have hsize := @ByteArray.utf8Size_utf8DecodeChar (b :: bs).toByteArray 0 hsome
  refine ⟨b, bs, hbytes, ?_⟩
  have hfirst : b.IsUTF8FirstByte := by
    have := @UInt8.isUTF8FirstByte_getElem_zero_utf8EncodeChar c
    simpa only [hbytes, List.getElem_cons_zero] using this
  rw [following_first hfirst]
  simp only [hchar, List.getElem_toByteArray, List.getElem_cons_zero] at hsize
  rw [← hsize, ← hlength, Nat.add_sub_cancel]

theorem takeChar_octets (c : Char) (rest : Text) :
    takeChar ((String.utf8EncodeChar c).flatMap octet ++ rest) = some (c, rest) := by
  obtain ⟨b, bs, hbytes, hfollowing⟩ := utf8EncodeChar_cons c
  have hchar := utf8DecodeChar?_encode c
  rw [hbytes] at hchar ⊢
  rw [List.flatMap_cons, List.append_assoc]
  simp only [takeChar, takeOctet_octet, hfollowing, takeOctets_octets, hchar, Option.bind_eq_bind,
    Option.bind_some]

variable {safe : Char → Bool}

theorem decode_encodeChar (hsafe : safe '%' = false) (c : Char) (rest : Text) :
    decode (encodeChar safe c ++ rest) = (decode rest).map (.scalar c :: ·) := by
  rw [encodeChar]
  split
  · have hc : c ≠ '%' := fun h => by
      subst h
      simp_all
    rw [List.singleton_append, decode]
    intro h
    exact hc (CodePoint.scalar.inj h)
  · have htake := takeChar_octets c rest
    obtain ⟨b, bs, hbytes, -⟩ := utf8EncodeChar_cons c
    rw [hbytes, List.flatMap_cons, octet] at htake ⊢
    simp only [List.cons_append, List.nil_append] at htake ⊢
    rw [decode]
    split
    · simp_all
    · simp_all

/-- Decoding undoes encoding. -/
theorem decode_encode (hsafe : safe '%' = false) {s encoded : Text}
    (h : encode safe s = some encoded) : decode encoded = some s := by
  induction s generalizing encoded with
  | nil =>
      cases h
      rw [decode]
  | cons a rest ih =>
      cases a with
      | surrogate code => cases h
      | scalar c =>
          obtain ⟨tail, htail, rfl⟩ := Option.map_eq_some_iff.mp h
          rw [decode_encodeChar hsafe, ih htail, Option.map_some]

/-! ## Separators -/

/-- Characters that no encoded text has. -/
structure Separator (safe : Char → Bool) (c : Char) : Prop where
  unsafe_char : safe c = false
  ne_percent : c ≠ '%'
  no_digit : hexValue c = none

instance (safe : Char → Bool) (c : Char) : Decidable (Separator safe c) :=
  decidable_of_iff (safe c = false ∧ c ≠ '%' ∧ hexValue c = none)
    ⟨fun ⟨h1, h2, h3⟩ => ⟨h1, h2, h3⟩, fun ⟨h1, h2, h3⟩ => ⟨h1, h2, h3⟩⟩

theorem mem_octet {b : UInt8} {c : Char} (h : .scalar c ∈ octet b) :
    c = '%' ∨ hexValue c ≠ none := by
  have hdigit : ∀ n < 16, c = hexDigit n → hexValue c ≠ none := fun n hn hc => by
    rw [hc, hexValue_hexDigit n hn]
    exact Option.some_ne_none n
  simp only [octet, List.mem_cons, CodePoint.scalar.injEq, List.not_mem_nil, or_false] at h
  rcases h with hpercent | hhigh | hlow
  · exact .inl hpercent
  · exact .inr (hdigit _ (by have := b.toNat_lt; omega) hhigh)
  · exact .inr (hdigit _ (Nat.mod_lt _ (by decide)) hlow)

theorem Separator.not_mem {c : Char} (h : Separator safe c) {s encoded : Text}
    (hencoded : encode safe s = some encoded) : .scalar c ∉ encoded := by
  induction s generalizing encoded with
  | nil =>
      cases hencoded
      exact List.not_mem_nil
  | cons a rest ih =>
      cases a with
      | surrogate code => cases hencoded
      | scalar c' =>
          obtain ⟨tail, htail, rfl⟩ := Option.map_eq_some_iff.mp hencoded
          rw [List.mem_append, not_or]
          refine ⟨fun hmem => ?_, ih htail⟩
          rw [encodeChar] at hmem
          split at hmem
          · next hsafe =>
              obtain rfl := CodePoint.scalar.inj (List.mem_singleton.mp hmem)
              rw [h.unsafe_char] at hsafe
              cases hsafe
          · obtain ⟨b, -, hb⟩ := List.mem_flatMap.mp hmem
            rcases mem_octet hb with hpercent | hdigit
            · exact h.ne_percent hpercent
            · exact hdigit h.no_digit

/-- Only the empty text is encoded by nothing. -/
theorem encode_eq_nil {s : Text} : encode safe s = some [] ↔ s = [] := by
  constructor
  · intro h
    cases s with
    | nil => rfl
    | cons a rest =>
        cases a with
        | surrogate code => cases h
        | scalar c =>
            obtain ⟨tail, -, htail⟩ := Option.map_eq_some_iff.mp h
            have hchar := (List.append_eq_nil_iff.mp htail).1
            rw [encodeChar] at hchar
            split at hchar
            · cases hchar
            · obtain ⟨b, bs, hbytes, -⟩ := utf8EncodeChar_cons c
              rw [hbytes, List.flatMap_cons, octet] at hchar
              cases hchar
  · rintro rfl
    rfl

/-- Whether a text has an encoding at all, whatever is safe. -/
def Encodable (s : Text) : Prop := ∀ code, .surrogate code ∉ s

theorem encodable_text (s : String) : Encodable (text s) := fun code hmem => by
  obtain ⟨c, -, hc⟩ := List.mem_map.mp hmem
  cases hc

theorem exists_encode_iff {s : Text} : (∃ encoded, encode safe s = some encoded) ↔ Encodable s := by
  induction s with
  | nil => exact ⟨fun _ _ => List.not_mem_nil, fun _ => ⟨[], rfl⟩⟩
  | cons a rest ih =>
      cases a with
      | surrogate code =>
          constructor
          · rintro ⟨_, h⟩
            cases h
          · intro h
            exact absurd List.mem_cons_self (h code)
      | scalar c =>
          constructor
          · rintro ⟨_, h⟩ code
            obtain ⟨tail, htail, -⟩ := Option.map_eq_some_iff.mp h
            rw [List.mem_cons, not_or]
            exact ⟨nofun, ih.mp ⟨tail, htail⟩ code⟩
          · intro h
            obtain ⟨tail, htail⟩ := ih.mpr fun code hmem => h code (List.mem_cons_of_mem _ hmem)
            exact ⟨encodeChar safe c ++ tail, by rw [encode, htail, Option.map_some]⟩

/-! ## A second pass -/

/-- Escape further characters of an encoded text. -/
def escapeMore (more : Char → Bool) : CodePoint → Text
  | .scalar c => if more c then octet (UInt8.ofNat c.toNat) else [.scalar c]
  | .surrogate code => [.surrogate code]

variable {more : Char → Bool}

/-- The second pass leaves the first one's escapes alone. -/
theorem flatMap_escapeMore_octet (hpercent : more '%' = false)
    (hdigits : ∀ n < 16, more (hexDigit n) = false) (b : UInt8) :
    (octet b).flatMap (escapeMore more) = octet b := by
  have hhigh := hdigits (b.toNat / 16) (by have := b.toNat_lt; omega)
  have hlow := hdigits (b.toNat % 16) (Nat.mod_lt _ (by decide))
  simp [octet, escapeMore, hpercent, hhigh, hlow]

/-- Two passes are one with fewer safe characters. -/
theorem encode_escapeMore (hpercent : more '%' = false)
    (hdigits : ∀ n < 16, more (hexDigit n) = false)
    (hascii : ∀ c, more c = true → String.utf8EncodeChar c = [UInt8.ofNat c.toNat]) (s : Text) :
    (encode safe s).map (·.flatMap (escapeMore more)) =
      encode (fun c => safe c && !more c) s := by
  have hchar : ∀ c, (encodeChar safe c).flatMap (escapeMore more) =
      encodeChar (fun c => safe c && !more c) c := fun c => by
    rw [encodeChar, encodeChar]
    by_cases hsafe : safe c = true
    · rw [if_pos hsafe, List.flatMap_singleton, escapeMore, hsafe, Bool.true_and]
      by_cases hmore : more c = true
      · simp [hmore, hascii c hmore]
      · simp [hmore]
    · rw [if_neg hsafe, if_neg (by simp [hsafe]), List.flatMap_assoc]
      exact List.flatMap_congr fun b _ => flatMap_escapeMore_octet hpercent hdigits b
  induction s with
  | nil => rfl
  | cons a rest ih =>
      cases a with
      | surrogate code => rfl
      | scalar c =>
          rw [encode, encode, ← ih, Option.map_map, Option.map_map]
          refine congrArg (Option.map · (encode safe rest)) (funext fun tail => ?_)
          simp only [Function.comp_apply, List.flatMap_append, hchar]

end Percent
