import Mathlib.Data.List.Pairwise
import EmergentFlow.Codegen.Naming
import EmergentFlow.Lib.StableSort

/-!
# Codegen — NamingLaws

When the names of the emitted program are safe. Candidates are identifiers
and no keywords by their shape; ports without a suffix keep apart because
their candidates are unique. What is left to the hash is the ports with a
suffix, whose two ids are joined by a colon before they are hashed, so that
different ports can have one digest. Where some number of digits tells the
ports apart, the loop finds the least and its names are distinct
(`suffixesApart_iff`).
-/

namespace EmergentFlow.Naming

variable {Sub : Type}

/-! ## Identifiers -/

/-- A character of an identifier, as far as names are made of it. -/
def is_name_char (c : Char) : Bool := is_slug_char c || c = '_'

/-- An identifier of ASCII letters in lower case, digits and underscores. -/
def is_identifier (name : String) : Bool :=
  name ≠ "" && !starts_with_digit name && name.toList.all is_name_char

theorem underscored_all (prev : Bool) (chars : List Char) :
    (underscored prev chars).all is_name_char = true := by
  induction chars generalizing prev with
  | nil => rfl
  | cons c rest ih =>
      rw [underscored]
      split
      · rename_i hc
        rw [List.all_cons, ih, is_name_char, hc]
        rfl
      · split
        · exact ih true
        · rw [List.all_cons, ih]
          rfl

theorem slugify_all (nfkd : String → String) (text : String) :
    (slugify nfkd text).toList.all is_name_char = true := by
  rw [slugify, String.toList_ofList, List.all_eq_true]
  intro c hc
  have hall := List.all_eq_true.mp (underscored_all false
    (((nfkd text).toList.filter fun c => c.toNat < 128).map Char.toLower))
  exact hall c ((List.dropWhile_suffix _).subset ((List.rdropWhile_prefix _ _).subset hc))

theorem is_identifier_append {a b : String} (ha : is_identifier a = true)
    (hb : b.toList.all is_name_char = true) : is_identifier (a ++ b) = true := by
  simp only [is_identifier, Bool.and_eq_true, decide_eq_true_eq, ne_eq] at ha ⊢
  obtain ⟨⟨hne, hdigit⟩, hall⟩ := ha
  refine ⟨⟨?_, ?_⟩, ?_⟩
  · intro h
    apply hne
    have := congrArg String.toList h
    rw [String.toList_append] at this
    exact String.toList_injective (List.append_eq_nil_iff.mp this).1
  · rw [starts_with_digit] at hdigit ⊢
    rw [String.toList_append]
    cases hlist : a.toList with
    | nil => exact absurd (String.toList_injective hlist) hne
    | cons c rest =>
        rw [hlist] at hdigit
        exact hdigit
  · rw [String.toList_append, List.all_append, hall, hb]
    rfl

theorem sanitize_identifier_spec {slug : String} (hne : slug ≠ "")
    (hall : slug.toList.all is_name_char = true) :
    is_identifier (sanitize_identifier slug) = true := by
  rw [sanitize_identifier, if_neg hne]
  have hprefixed : is_identifier (if starts_with_digit slug then "_" ++ slug else slug) = true := by
    cases hdigit : starts_with_digit slug with
    | true => exact is_identifier_append (by decide) hall
    | false =>
        rw [if_neg (by decide), is_identifier, hdigit, hall]
        simpa using hne
  generalize (if starts_with_digit slug then "_" ++ slug else slug) = prefixed at hprefixed ⊢
  show is_identifier (if shadows prefixed then prefixed ++ "_" else prefixed) = true
  cases shadows prefixed with
  | true => exact is_identifier_append hprefixed (by decide)
  | false => exact hprefixed

theorem identifier_or_spec (nfkd : String → String) (text : String) {fallback : String}
    (hfallback : is_identifier fallback = true) :
    is_identifier (identifier_or nfkd text fallback) = true := by
  rw [identifier_or]
  by_cases hslug : slugify nfkd text = ""
  · rw [hslug]
    exact hfallback
  · have hspec := sanitize_identifier_spec hslug (slugify_all nfkd text)
    have hne : sanitize_identifier (slugify nfkd text) ≠ "" := by
      intro h
      rw [h] at hspec
      cases hspec
    simp only [if_neg hne]
    exact hspec

theorem base_name_spec (nfkd : String → String) (node : Node Sub) :
    is_identifier (base_name nfkd node) = true := by
  have htype : is_identifier (identifier_or nfkd node.type "node") = true :=
    identifier_or_spec nfkd node.type (by decide)
  have hchoose : ∀ base, base = "" ∨ is_identifier base = true →
      is_identifier (if base = "" then identifier_or nfkd node.type "node" else base) = true := by
    intro base hbase
    by_cases hempty : base = ""
    · rw [if_pos hempty]
      exact htype
    · rw [if_neg hempty]
      exact hbase.resolve_left hempty
  apply hchoose
  by_cases hlabel : String.ofList (py_strip (node.label.getD "").toList) = ""
  · rw [if_pos hlabel]
    exact .inl rfl
  · rw [if_neg hlabel]
    by_cases hslug : slugify nfkd (String.ofList (py_strip (node.label.getD "").toList)) = ""
    · rw [hslug]
      exact .inl rfl
    · exact .inr (sanitize_identifier_spec hslug (slugify_all nfkd _))

theorem hash_suffix_all (blake2s : Blake2s) (node_id port_id : String) (length : Nat) :
    (hash_suffix blake2s node_id port_id length).toList.all is_name_char = true := by
  rw [hash_suffix, String.toList_ofList, List.all_eq_true]
  intro c hc
  obtain ⟨d, -, rfl⟩ := List.mem_map.mp (List.mem_of_mem_take hc)
  have hdigit : ∀ d : Fin 16, is_name_char (hex_digit d) = true := by decide
  exact hdigit d

/-- No keyword has an underscore. -/
theorem notMem_keywords {name : String} (h : '_' ∈ name.toList) : name ∉ KEYWORDS := by
  intro hmem
  have hnone : ∀ word ∈ KEYWORDS, '_' ∉ word.toList := by decide
  exact hnone name hmem h

/-! ## Candidates -/

theorem port_entries_spec {nfkd : String → String} {graph : Graph Sub} {e : PortEntry}
    (he : e ∈ port_entries nfkd graph) :
    is_identifier e.candidate = true ∧ '_' ∈ e.candidate.toList := by
  obtain ⟨node, -, he⟩ := List.mem_flatMap.mp he
  obtain ⟨port, -, rfl⟩ := List.mem_map.mp he
  have hport : is_identifier (identifier_or nfkd port.name "out") = true :=
    identifier_or_spec nfkd port.name (by decide)
  constructor
  · apply is_identifier_append (is_identifier_append (base_name_spec nfkd node) (by decide))
    simp only [is_identifier, Bool.and_eq_true] at hport
    exact hport.2
  · simp [String.toList_append]

theorem suffixed_spec (blake2s : Blake2s) {e : PortEntry} (length : Nat)
    (he : is_identifier e.candidate = true ∧ '_' ∈ e.candidate.toList) :
    is_identifier (suffixed blake2s length e) = true ∧
      '_' ∈ (suffixed blake2s length e).toList := by
  constructor
  · exact is_identifier_append (is_identifier_append he.1 (by decide)) (hash_suffix_all ..)
  · simp [suffixed, String.toList_append]

/-! ## OUT ports -/

section Entries

variable {blake2s : Blake2s} {entries : List PortEntry} {reserved : List String}

theorem collides_eq_false {e : PortEntry} : collides entries reserved e = false ↔
    entries.countP (·.candidate = e.candidate) = 1 ∧ e.candidate ∉ reserved := by
  simp [collides]

/-- Two entries with one candidate are counted twice. -/
theorem eq_of_candidate_eq {e e' : PortEntry} (he : e ∈ entries) (he' : e' ∈ entries)
    (hcount : entries.countP (·.candidate = e.candidate) = 1)
    (heq : e.candidate = e'.candidate) : e = e' := by
  by_contra hne
  have htwo : ∀ l : List PortEntry, l.Sublist entries →
      l.countP (·.candidate = e.candidate) ≤ 1 := by
    intro l hl
    rw [← hcount]
    exact hl.countP_le
  rcases StableSort.pair_or_swap he he' hne with h | h
  · have := htwo _ h
    simp [heq] at this
  · have := htwo _ h
    simp [heq] at this

/-- What the names of a map promise. -/
structure NameMapSafe (reserved : List String) (bindings : List OutBinding) : Prop where
  distinct : ∀ b ∈ bindings, ∀ b' ∈ bindings, (b.node_id, b.port_id) ≠ (b'.node_id, b'.port_id) →
    b.var_name ≠ b'.var_name
  valid : ∀ b ∈ bindings, is_identifier b.var_name = true ∧ b.var_name ∉ KEYWORDS
  unreserved : ∀ b ∈ bindings, b.var_name ∉ reserved

/-- The suffixes do their work: at the length that is used, the suffixed
names of different ports differ, no such name is the bare name of another
port, and none is reserved. -/
structure SuffixesApart (blake2s : Blake2s) (entries : List PortEntry) (reserved : List String) :
    Prop where
  distinct : ∀ e ∈ entries, ∀ e' ∈ entries, collides entries reserved e = true →
    collides entries reserved e' = true → e.key ≠ e'.key →
    suffixed blake2s (suffix_length blake2s entries reserved) e ≠
      suffixed blake2s (suffix_length blake2s entries reserved) e'
  unlike : ∀ e ∈ entries, ∀ e' ∈ entries, collides entries reserved e = true →
    collides entries reserved e' = false → e.key ≠ e'.key →
    suffixed blake2s (suffix_length blake2s entries reserved) e ≠ e'.candidate
  unreserved : ∀ e ∈ entries, collides entries reserved e = true →
    suffixed blake2s (suffix_length blake2s entries reserved) e ∉ reserved

theorem var_name_of_collides {e : PortEntry} (h : collides entries reserved e = true) :
    var_name blake2s entries reserved e =
      suffixed blake2s (suffix_length blake2s entries reserved) e := by
  rw [var_name, if_pos h]

theorem var_name_of_not_collides {e : PortEntry} (h : collides entries reserved e = false) :
    var_name blake2s entries reserved e = e.candidate := by
  rw [var_name, if_neg (by rw [h]; decide)]

/-- Different ports get different names exactly when the suffixes do. -/
theorem SuffixesApart.var_name_ne (h : SuffixesApart blake2s entries reserved) {e e' : PortEntry}
    (he : e ∈ entries) (he' : e' ∈ entries) (hne : e.key ≠ e'.key) :
    var_name blake2s entries reserved e ≠ var_name blake2s entries reserved e' := by
  cases hc : collides entries reserved e with
  | true =>
      cases hc' : collides entries reserved e' with
      | true =>
          rw [var_name_of_collides hc, var_name_of_collides hc']
          exact h.distinct e he e' he' hc hc' hne
      | false =>
          rw [var_name_of_collides hc, var_name_of_not_collides hc']
          exact h.unlike e he e' he' hc hc' hne
  | false =>
      cases hc' : collides entries reserved e' with
      | true =>
          rw [var_name_of_not_collides hc, var_name_of_collides hc']
          exact (h.unlike e' he' e he hc' hc hne.symm).symm
      | false =>
          rw [var_name_of_not_collides hc, var_name_of_not_collides hc']
          intro heq
          rw [eq_of_candidate_eq he he' (collides_eq_false.mp hc).1 heq] at hne
          exact hne rfl

/-! ## When the suffixes do their work -/

/-- The digits of the digest of a port. -/
def digest (blake2s : Blake2s) (e : PortEntry) : List (Fin 16) :=
  (blake2s (e.node_id ++ ":" ++ e.port_id)).1

/-- So many digits tell the ports apart: ports with one candidate differ in them, and no name
with them as suffix is a bare one. -/
structure ApartAt (blake2s : Blake2s) (entries : List PortEntry) (reserved : List String)
    (length : Nat) : Prop where
  digits : entries.Pairwise fun e e' => e.candidate = e'.candidate →
    (digest blake2s e).take length ≠ (digest blake2s e').take length
  unlike : ∀ e ∈ entries, ∀ e' ∈ entries, collides entries reserved e = true →
    collides entries reserved e' = false → suffixed blake2s length e ≠ e'.candidate

/-- The shortest of the lengths 4 to 16 that tells the ports apart makes no reserved name. -/
structure Settled (blake2s : Blake2s) (entries : List PortEntry) (reserved : List String)
    (length : Nat) : Prop where
  range : 4 ≤ length ∧ length ≤ 16
  apart : ApartAt blake2s entries reserved length
  shortest : ∀ k, 4 ≤ k → k < length → ¬ ApartAt blake2s entries reserved k
  unreserved : ∀ e ∈ entries, collides entries reserved e = true →
    suffixed blake2s length e ∉ reserved

/-- No length tells the entries apart, as one port is listed twice; all sixteen digits tell
different ports apart and make no reserved name. -/
structure Exhausted (blake2s : Blake2s) (entries : List PortEntry) (reserved : List String) :
    Prop where
  repeated : ¬ (entries.map PortEntry.key).Nodup
  none_apart : ∀ k, 4 ≤ k → k ≤ 16 → ¬ ApartAt blake2s entries reserved k
  digits : ∀ e ∈ entries, ∀ e' ∈ entries, e.key ≠ e'.key → e.candidate = e'.candidate →
    digest blake2s e ≠ digest blake2s e'
  unlike : ∀ e ∈ entries, ∀ e' ∈ entries, collides entries reserved e = true →
    collides entries reserved e' = false → e.key ≠ e'.key → suffixed blake2s 16 e ≠ e'.candidate
  unreserved : ∀ e ∈ entries, collides entries reserved e = true →
    suffixed blake2s 16 e ∉ reserved

/-- The suffixes keep the ports apart. -/
def Separable (blake2s : Blake2s) (entries : List PortEntry) (reserved : List String) : Prop :=
  (∃ length, Settled blake2s entries reserved length) ∨ Exhausted blake2s entries reserved

theorem hex_digit_injective : Function.Injective hex_digit := by
  have hall : ∀ a b : Fin 16, hex_digit a = hex_digit b → a = b := by decide
  exact fun a b h => hall a b h

/-- Names with a suffix agree when the candidates and the digits do. -/
theorem suffixed_eq_iff {length : Nat} {e e' : PortEntry} :
    suffixed blake2s length e = suffixed blake2s length e' ↔
      e.candidate = e'.candidate ∧
        (digest blake2s e).take length = (digest blake2s e').take length := by
  rw [← String.toList_inj]
  simp only [suffixed, hash_suffix, String.toList_append, String.toList_ofList, ← List.map_take]
  constructor
  · intro h
    obtain ⟨hfront, hdigits⟩ := List.append_inj' h (by
      simp only [List.length_map, List.length_take, (blake2s _).2])
    exact ⟨String.toList_inj.mp (List.append_cancel_right hfront),
      List.map_injective_iff.mpr hex_digit_injective hdigits⟩
  · rintro ⟨hcandidate, hdigits⟩
    rw [hcandidate]
    exact congrArg (fun digits => _ ++ List.map hex_digit digits) hdigits

/-- Of two entries with one candidate both get a suffix. -/
theorem collides_of_pair {e e' : PortEntry} (h : [e, e'].Sublist entries)
    (heq : e.candidate = e'.candidate) : collides entries reserved e = true ∧
      collides entries reserved e' = true := by
  have htwo : ∀ c, e.candidate = c → entries.countP (·.candidate = c) ≠ 1 := by
    intro c hc hone
    have hle : [e, e'].countP (·.candidate = c) ≤ entries.countP (·.candidate = c) := h.countP_le
    simp [hone, hc, ← heq] at hle
  exact ⟨by simp [collides, htwo _ rfl], by simp [collides, htwo _ heq]⟩

/-- The test of the loop. -/
theorem separates_iff {length : Nat} : separates blake2s entries reserved length = true ↔
    ApartAt blake2s entries reserved length := by
  have hdigits : ((entries.filter (collides entries reserved)).map
      (suffixed blake2s length)).Nodup ↔ entries.Pairwise fun e e' => e.candidate = e'.candidate →
        (digest blake2s e).take length ≠ (digest blake2s e').take length := by
    rw [List.Nodup, List.pairwise_map, List.pairwise_filter, List.pairwise_iff_forall_sublist,
      List.pairwise_iff_forall_sublist]
    refine forall₂_congr fun e e' => forall_congr' fun hpair => ?_
    rw [ne_eq, suffixed_eq_iff, not_and]
    constructor
    · intro h heq
      obtain ⟨hc, hc'⟩ : collides entries reserved e = true ∧ collides entries reserved e' = true :=
        collides_of_pair hpair heq
      exact h hc hc' heq
    · exact fun h _ _ => h
  rw [separates, Bool.and_eq_true, decide_eq_true_eq, hdigits]
  refine ⟨fun h => ⟨h.1, ?_⟩, fun h => ⟨h.digits, ?_⟩⟩
  · intro e he e' he' hc hc' heq
    simp only [List.all_eq_true, List.mem_map, List.mem_filter] at h
    simpa [heq] using h.2 _ ⟨e, ⟨he, hc⟩, rfl⟩ e' ⟨he', by simp [hc']⟩
  · simp only [List.all_eq_true, List.mem_map, List.mem_filter]
    rintro _ ⟨e, ⟨he, hc⟩, rfl⟩ e' ⟨he', hc'⟩
    simpa using (h.unlike e he e' he' hc (by simpa using hc')).symm

theorem separates_eq_false {length : Nat} : separates blake2s entries reserved length = false ↔
    ¬ ApartAt blake2s entries reserved length := by
  rw [Bool.eq_false_iff, ne_eq, separates_iff]

/-- What the loop guarantees. -/
theorem ApartAt.names {length : Nat} (h : ApartAt blake2s entries reserved length) {e e' : PortEntry}
    (he : e ∈ entries) (he' : e' ∈ entries) (hne : e ≠ e') :
    suffixed blake2s length e ≠ suffixed blake2s length e' := by
  rw [ne_eq, suffixed_eq_iff, not_and]
  have hsymm : Std.Symm fun e e' : PortEntry => e.candidate = e'.candidate →
      (digest blake2s e).take length ≠ (digest blake2s e').take length :=
    ⟨fun _ _ h heq => (h heq.symm).symm⟩
  exact h.digits.forall he he' hne

theorem suffix_length_of_first {length : Nat} (hrange : 4 ≤ length ∧ length ≤ 16)
    (h : ApartAt blake2s entries reserved length)
    (hshortest : ∀ k, 4 ≤ k → k < length → ¬ ApartAt blake2s entries reserved k) :
    suffix_length blake2s entries reserved = length := by
  have hfind : (List.range' 4 13).find? (separates blake2s entries reserved) = some length := by
    refine List.find?_range'_eq_some.mpr ⟨separates_iff.mpr h, ?_, fun k hk hlt => ?_⟩
    · rw [List.mem_range'_1]
      omega
    · rw [separates_eq_false.mpr (hshortest k hk hlt)]
      rfl
  rw [suffix_length, hfind, Option.getD_some]

/-- The loop stops at the shortest length that tells the ports apart, if there is one. -/
theorem suffix_length_cases (blake2s : Blake2s) (entries : List PortEntry)
    (reserved : List String) :
    (∃ length, 4 ≤ length ∧ length ≤ 16 ∧ ApartAt blake2s entries reserved length ∧
      (∀ k, 4 ≤ k → k < length → ¬ ApartAt blake2s entries reserved k) ∧
        suffix_length blake2s entries reserved = length) ∨
    ((∀ k, 4 ≤ k → k ≤ 16 → ¬ ApartAt blake2s entries reserved k) ∧
      suffix_length blake2s entries reserved = 17) := by
  cases hfind : (List.range' 4 13).find? (separates blake2s entries reserved) with
  | some length =>
      obtain ⟨hapart, hmem, hshortest⟩ := List.find?_range'_eq_some.mp hfind
      rw [List.mem_range'_1] at hmem
      refine .inl ⟨length, hmem.1, by omega, separates_iff.mp hapart, fun k hk hlt => ?_, ?_⟩
      · exact separates_eq_false.mp (by simpa using hshortest k hk hlt)
      · rw [suffix_length, hfind, Option.getD_some]
  | none =>
      refine .inr ⟨fun k hk hle => ?_, by rw [suffix_length, hfind, Option.getD_none]⟩
      have hfalse := List.find?_range'_eq_none.mp hfind k hk (by omega)
      exact separates_eq_false.mp (by simpa using hfalse)

/-- There are sixteen digits in all. -/
theorem suffixed_seventeen (e : PortEntry) : suffixed blake2s 17 e = suffixed blake2s 16 e := by
  have hlength : ((blake2s (e.node_id ++ ":" ++ e.port_id)).1.map hex_digit).length = 16 := by
    rw [List.length_map, (blake2s _).2]
  rw [suffixed, suffixed, hash_suffix, hash_suffix, List.take_of_length_le (by omega),
    List.take_of_length_le (by omega)]

theorem take_digest (e : PortEntry) : (digest blake2s e).take 16 = digest blake2s e :=
  List.take_of_length_le (by rw [digest, (blake2s _).2])

/-- The names are apart when the loop finds a length, and by all the digits otherwise. -/
theorem suffixesApart_iff :
    SuffixesApart blake2s entries reserved ↔ Separable blake2s entries reserved := by
  rcases suffix_length_cases blake2s entries reserved with
    ⟨length, hlower, hupper, hapart, hshortest, hlength⟩ | ⟨hnone, hlength⟩
  · constructor
    · intro h
      refine .inl ⟨length, ⟨hlower, hupper⟩, hapart, hshortest, fun e he hc => ?_⟩
      rw [← hlength]
      exact h.unreserved e he hc
    · rintro (⟨length', h⟩ | h)
      · have hsame := suffix_length_of_first h.range h.apart h.shortest
        constructor <;> rw [hsame]
        · exact fun e he e' he' _ _ hne => h.apart.names he he' fun heq => hne (heq ▸ rfl)
        · exact fun e he e' he' hc hc' _ => h.apart.unlike e he e' he' hc hc'
        · exact h.unreserved
      · exact absurd hapart (h.none_apart length hlower hupper)
  · -- the loop has run out, and all digits are used
    constructor
    · intro h
      obtain ⟨hdistinct, hunlike, hunreserved⟩ := h
      simp only [hlength, suffixed_seventeen] at hdistinct hunlike hunreserved
      have hdigits : ∀ e ∈ entries, ∀ e' ∈ entries, e.key ≠ e'.key →
          e.candidate = e'.candidate → digest blake2s e ≠ digest blake2s e' := by
        intro e he e' he' hne heq hsame
        have hpair : collides entries reserved e = true ∧ collides entries reserved e' = true := by
          rcases StableSort.pair_or_swap he he' fun h => hne (h ▸ rfl) with hpair | hpair
          · exact collides_of_pair hpair heq
          · exact (collides_of_pair hpair heq.symm).symm
        refine hdistinct e he e' he' hpair.1 hpair.2 hne (suffixed_eq_iff.mpr ⟨heq, ?_⟩)
        rw [hsame]
      refine .inr ⟨fun hkeys => ?_, hnone, hdigits, hunlike, hunreserved⟩
      -- with every port listed once sixteen digits would have been enough
      refine hnone 16 (by decide) (by decide) ⟨?_, fun e he e' he' hc hc' => ?_⟩
      · refine (List.pairwise_map.mp hkeys).imp_of_mem fun he he' hne heq => ?_
        rw [take_digest, take_digest]
        exact hdigits _ he _ he' hne heq
      · refine hunlike e he e' he' hc hc' fun hkey => ?_
        rw [List.inj_on_of_nodup_map hkeys he he' hkey, hc'] at hc
        cases hc
    · rintro (⟨length, h⟩ | h)
      · exact absurd h.apart (hnone length h.range.1 h.range.2)
      · constructor <;> simp only [hlength, suffixed_seventeen]
        · intro e he e' he' _ _ hne heq
          obtain ⟨hcandidate, hdigits⟩ := suffixed_eq_iff.mp heq
          rw [take_digest, take_digest] at hdigits
          exact h.digits e he e' he' hne hcandidate hdigits
        · exact h.unlike
        · exact h.unreserved

theorem name_map_safe_iff (nfkd : String → String) (blake2s : Blake2s) (graph : Graph Sub)
    (reserved : List String) :
    NameMapSafe reserved (build_name_map nfkd blake2s graph reserved) ↔
      SuffixesApart blake2s (port_entries nfkd graph) reserved := by
  rw [build_name_map]
  generalize hentries : port_entries nfkd graph = entries
  constructor
  · rintro ⟨hdistinct, -, hunreserved⟩
    have hname : ∀ e ∈ entries, ∀ e' ∈ entries, e.key ≠ e'.key →
        var_name blake2s entries reserved e ≠ var_name blake2s entries reserved e' :=
      fun e he e' he' hne => hdistinct _ (List.mem_map_of_mem he) _ (List.mem_map_of_mem he') hne
    refine ⟨?_, ?_, ?_⟩
    · intro e he e' he' hc hc' hne
      rw [← var_name_of_collides hc, ← var_name_of_collides hc']
      exact hname e he e' he' hne
    · -- a suffixed name and a bare one
      intro e he e' he' hc hc' hne
      have hbare : var_name blake2s entries reserved e' = e'.candidate :=
        var_name_of_not_collides hc'
      rw [← var_name_of_collides hc, ← hbare]
      exact hname e he e' he' hne
    · -- a suffixed name against the reserved ones
      intro e he hc
      rw [← var_name_of_collides hc]
      exact hunreserved _ (List.mem_map_of_mem he)
  · -- bare names are apart already: two that agree would collide
    intro h
    refine ⟨?_, ?_, ?_⟩
    · intro b hb b' hb' hne
      obtain ⟨e, he, rfl⟩ := List.mem_map.mp hb
      obtain ⟨e', he', rfl⟩ := List.mem_map.mp hb'
      exact h.var_name_ne he he' hne
    · intro b hb
      obtain ⟨e, he, rfl⟩ := List.mem_map.mp hb
      have hspec := port_entries_spec (hentries ▸ he)
      cases hc : collides entries reserved e with
      | true =>
          simp only [var_name_of_collides hc]
          have hsuffixed := suffixed_spec blake2s (suffix_length blake2s entries reserved) hspec
          exact ⟨hsuffixed.1, notMem_keywords hsuffixed.2⟩
      | false =>
          simp only [var_name_of_not_collides hc]
          exact ⟨hspec.1, notMem_keywords hspec.2⟩
    · intro b hb
      obtain ⟨e, he, rfl⟩ := List.mem_map.mp hb
      cases hc : collides entries reserved e with
      | true =>
          simp only [var_name_of_collides hc]
          exact h.unreserved e he hc
      | false =>
          simp only [var_name_of_not_collides hc]
          exact (collides_eq_false.mp hc).2

end Entries

/-! ## Graph params -/

section Params

variable {nfkd : String → String} {blake2s : Blake2s}

/-- Every param in turn has a name that is not taken, and the first such is fit; it is taken
from then on. -/
def ParamsFree (nfkd : String → String) (blake2s : Blake2s) (fit : String → Prop) :
    List String → List String → Prop
  | _, [] => True
  | taken, pname :: rest => ∃ pre name post,
      param_candidates nfkd blake2s pname = pre ++ name :: post ∧ (∀ n ∈ pre, n ∈ taken) ∧
        name ∉ taken ∧ fit name ∧ ParamsFree nfkd blake2s fit (name :: taken) rest

/-- What the names of graph params promise, given those taken before. -/
structure ParamNamesSafe (fit : String → Prop) (taken : List String)
    (names : List (String × String)) : Prop where
  distinct : (names.map Prod.snd).Nodup
  free : ∀ name ∈ names.map Prod.snd, name ∉ taken ∧ fit name

theorem name_params_keys (taken params : List String) :
    (name_params nfkd blake2s taken params).map Prod.fst = params := by
  induction params generalizing taken with
  | nil => rfl
  | cons pname rest ih =>
      rw [name_params]
      exact congrArg (pname :: ·) (ih _)

theorem pick_name_of_some {taken : List String} {pname name : String}
    (h : (param_candidates nfkd blake2s pname).find? (· ∉ taken) = some name) :
    pick_name nfkd blake2s taken pname = name := by
  rw [pick_name, h]
  rfl

/-- A param whose names are all taken gets one of them. -/
theorem pick_name_of_none {taken : List String} {pname : String}
    (h : (param_candidates nfkd blake2s pname).find? (· ∉ taken) = none) :
    pick_name nfkd blake2s taken pname ∈ taken := by
  rw [pick_name, h]
  rw [List.find?_eq_none] at h
  have hlast : identifier_or nfkd pname "param" ++ "_" ++
      hash_suffix blake2s pname "gparam" 16 ∈ param_candidates nfkd blake2s pname :=
    List.mem_cons_of_mem _ (List.mem_map.mpr ⟨16, by decide, rfl⟩)
  simpa using h _ hlast

/-- The name that a param gets is the first of its names that is not taken. -/
theorem pick_name_of_split {taken pre post : List String} {pname name : String}
    (hsplit : param_candidates nfkd blake2s pname = pre ++ name :: post)
    (htaken : ∀ n ∈ pre, n ∈ taken) (hname : name ∉ taken) :
    pick_name nfkd blake2s taken pname = name :=
  pick_name_of_some (List.find?_eq_some_iff_append.mpr
    ⟨by simpa using hname, pre, post, hsplit, by simpa using htaken⟩)

theorem name_params_safe_iff {fit : String → Prop} (taken params : List String) :
    ParamNamesSafe fit taken (name_params nfkd blake2s taken params) ↔
      ParamsFree nfkd blake2s fit taken params := by
  induction params generalizing taken with
  | nil => exact ⟨fun _ => trivial, fun _ => ⟨List.nodup_nil, nofun⟩⟩
  | cons pname rest ih =>
      -- the induction adds the name just picked to those that are taken
      have hrest := ih (pick_name nfkd blake2s taken pname :: taken)
      rw [name_params, ParamsFree]
      constructor
      · rintro ⟨hdistinct, hfree⟩
        rw [List.map_cons, List.nodup_cons] at hdistinct
        have hhead := hfree _ (List.mem_cons_self ..)
        have htail := hrest.mp ⟨hdistinct.2, fun n hn => ⟨?_, (hfree n (.tail _ hn)).2⟩⟩
        · cases hfind : (param_candidates nfkd blake2s pname).find? (· ∉ taken) with
          | none => exact absurd (pick_name_of_none hfind) hhead.1
          | some name =>
              obtain ⟨hname, pre, post, hsplit, hpre⟩ := List.find?_eq_some_iff_append.mp hfind
              have hpick := pick_name_of_some hfind
              rw [hpick] at htail
              exact ⟨pre, name, post, hsplit, by simpa using hpre, by simpa using hname,
                hpick ▸ hhead.2, htail⟩
        · rw [List.mem_cons, not_or]
          refine ⟨?_, (hfree n (.tail _ hn)).1⟩
          rintro rfl
          exact hdistinct.1 hn
      · rintro ⟨pre, name, post, hsplit, hpre, hname, hfit, hparams⟩
        have hpick := pick_name_of_split hsplit hpre hname
        rw [hpick] at hrest ⊢
        obtain ⟨hdistinct, hfree⟩ := hrest.mpr hparams
        refine ⟨List.nodup_cons.mpr ⟨fun hmem => ?_, hdistinct⟩, fun n hn => ?_⟩
        · exact (hfree _ hmem).1 (List.mem_cons_self ..)
        · rcases List.mem_cons.mp hn with rfl | hn
          · exact ⟨hname, hfit⟩
          · exact ⟨fun hmem => (hfree n hn).1 (List.mem_cons_of_mem _ hmem), (hfree n hn).2⟩

end Params

/-! ## Both -/

/-- All OUT ports and all graph params have names, and the names are safe.
`aliases` are the names that the imports of the emitted program bind. -/
structure NamesSafe (nfkd : String → String) (blake2s : Blake2s) (graph : Graph Sub)
    (reserved aliases : List String) : Prop where
  all_ports : (build_name_map nfkd blake2s graph reserved).map (fun b => (b.node_id, b.port_id)) =
    graph.sorted_nodes.flatMap fun node => node.out_ports.map fun port => (node.id, port.id)
  ports : NameMapSafe reserved (build_name_map nfkd blake2s graph reserved)
  all_params : (build_graph_param_names nfkd blake2s graph
    (build_name_map nfkd blake2s graph reserved)).map Prod.fst = sorted_params graph
  params : ParamNamesSafe (fun name => name ∉ reserved ∧ name ∉ aliases)
    (taken_names (build_name_map nfkd blake2s graph reserved))
    (build_graph_param_names nfkd blake2s graph (build_name_map nfkd blake2s graph reserved))

theorem build_name_map_ports (nfkd : String → String) (blake2s : Blake2s) (graph : Graph Sub)
    (reserved : List String) :
    (build_name_map nfkd blake2s graph reserved).map (fun b => (b.node_id, b.port_id)) =
      graph.sorted_nodes.flatMap fun node => node.out_ports.map fun port => (node.id, port.id) := by
  rw [build_name_map, List.map_map, port_entries, List.map_flatMap]
  congr 1
  funext node
  rw [List.map_map]
  rfl

/-- The names of a graph are safe exactly when some number of digits tells the ports apart and
makes no reserved name, and every param finds a name that is free and fit. -/
theorem names_safe_iff (nfkd : String → String) (blake2s : Blake2s) (graph : Graph Sub)
    (reserved aliases : List String) :
    NamesSafe nfkd blake2s graph reserved aliases ↔
      Separable blake2s (port_entries nfkd graph) reserved ∧
      ParamsFree nfkd blake2s (fun name => name ∉ reserved ∧ name ∉ aliases)
        (taken_names (build_name_map nfkd blake2s graph reserved)) (sorted_params graph) := by
  rw [← suffixesApart_iff, ← name_map_safe_iff, ← name_params_safe_iff]
  constructor
  · rintro ⟨-, hports, -, hparams⟩
    exact ⟨hports, hparams⟩
  · rintro ⟨hports, hparams⟩
    exact ⟨build_name_map_ports .., hports, name_params_keys .., hparams⟩

/-- The digest of `"a:b:c"`; of nothing else is asked. -/
def digest_abc (text : String) : { digits : List (Fin 16) // digits.length = 16 } :=
  if text = "a:b:c" then ⟨[7, 0, 11, 3, 8, 13, 0, 5, 3, 7, 6, 10, 14, 12, 13, 6], rfl⟩
  else ⟨List.replicate 16 0, rfl⟩

/-- Port `b:c` of node `a` and port `c` of node `a:b`, of one type and name. -/
def colon_ports : Graph Empty where
  nodes := Dict.ofList
    [("a", { id := "a", type := "t", ports := [⟨"b:c", "x", .OUT, "any", .ONE, none⟩] }),
      ("a:b", { id := "a:b", type := "t", ports := [⟨"c", "x", .OUT, "any", .ONE, none⟩] })]

/-- Both are named `t_x_70b38d05376aecd6`. -/
theorem colon_ports_share_name : ¬ NamesSafe id digest_abc colon_ports [] [] := by
  rintro ⟨-, ⟨hdistinct, -, -⟩, -, -⟩
  exact hdistinct ⟨"a", "b:c", "t_x_70b38d05376aecd6"⟩ (by decide +kernel)
    ⟨"a:b", "c", "t_x_70b38d05376aecd6"⟩ (by decide +kernel) (by decide) rfl

end EmergentFlow.Naming
