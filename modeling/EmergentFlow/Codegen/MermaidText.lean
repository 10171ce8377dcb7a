import EmergentFlow.Lib.Decimal
import EmergentFlow.Lib.Text

/-!
# Codegen — MermaidText

The texts of a Mermaid diagram (`codegen/mermaid.py`): the escaping of labels, which makes an
entity of every character with a meaning of its own and of the blank of a `direction LR`, and
the lines that are written with them. A label cannot end the quotes or the line it is written
in, nor be read as a directive, and every line says what the renderer meant.
-/

namespace EmergentFlow.Mermaid

/-! What is said of the characters of a list is decided along the list, not along all characters. -/

instance decidableAllChars (p : Char → Prop) [DecidablePred p] (l : List Char) :
    Decidable (∀ c ∈ l, p c) := List.decidableBAll p l

instance decidableExistsChar (p : Char → Prop) [DecidablePred p] (l : List Char) :
    Decidable (∃ c ∈ l, p c) := List.decidableBEx p l

/-! ## Escaping -/

/-- `_ESCAPES`. -/
def ESCAPES : List (Char × String) :=
  [('\x22', "#quot;"), ('#', "#35;"), ('%', "#37;"), ('&', "#amp;"), (':', "#58;"), ('<', "#lt;"),
    ('>', "#gt;"), ('[', "#91;"), (']', "#93;"), ('|', "#124;"), ('\x60', "#96;"),
    ('\x7b', "#123;"), ('\x7d', "#125;"), ('\r', ""), ('\n', "<br/>")]

/-- `_ESCAPES.get(ch, ch)`. -/
def escape (ch : Char) : List Char :=
  match ESCAPES.lookup ch with
  | none => [ch]
  | some entity => entity.toList

/-- `[\s\ufeff]`. -/
def is_blank (c : Char) : Bool := is_space c || c.toNat = 0xFEFF

def DIRECTION : List Char := ['d', 'i', 'r', 'e', 'c', 't', 'i', 'o', 'n']

/-- `TB|BT|RL|LR|TD`. -/
def DIRECTIONS : List (List Char) := [['T', 'B'], ['B', 'T'], ['R', 'L'], ['L', 'R'], ['T', 'D']]

/-- What `_DIRECTION_TOKEN` matches where it starts: the blank behind the word, and what is
behind that. -/
def direction_token (chars : List Char) : Option (Char × List Char) :=
  if DIRECTION <+: chars then
    match chars.drop DIRECTION.length with
    | [] => none
    | blank :: rest =>
        if is_blank blank ∧ ∃ d ∈ DIRECTIONS, d <+: rest.dropWhile is_blank then some (blank, rest)
        else none
  else none

theorem direction_token_eq_some {chars rest : List Char} {blank : Char} :
    direction_token chars = some (blank, rest) ↔
      chars = DIRECTION ++ blank :: rest ∧ is_blank blank ∧
        ∃ d ∈ DIRECTIONS, d <+: rest.dropWhile is_blank := by
  unfold direction_token
  by_cases hword : DIRECTION <+: chars
  · obtain ⟨tail, rfl⟩ := hword
    rw [if_pos (List.prefix_append _ _), List.drop_left, List.append_cancel_left_eq]
    cases tail with
    | nil => simp
    | cons c tail =>
        by_cases hmatch : is_blank c ∧ ∃ d ∈ DIRECTIONS, d <+: tail.dropWhile is_blank
        · simp only [if_pos hmatch, Option.some.injEq, Prod.mk.injEq, List.cons.injEq]
          constructor
          · rintro ⟨rfl, rfl⟩
            exact ⟨⟨rfl, rfl⟩, hmatch⟩
          · exact And.left
        · simp only [if_neg hmatch, reduceCtorEq, false_iff]
          rintro ⟨heq, hrest⟩
          obtain ⟨rfl, rfl⟩ := List.cons.inj heq
          exact hmatch hrest
  · rw [if_neg hword]
    constructor
    · intro h
      cases h
    · rintro ⟨rfl, -⟩
      exact absurd (List.prefix_append _ _) hword

/-- `_DIRECTION_TOKEN.sub`. -/
def neutralise (chars : List Char) : List Char :=
  match _h : direction_token chars with
  | some (blank, rest) => DIRECTION ++ '#' :: blank.toNat.repr.toList ++ ';' :: neutralise rest
  | none =>
      match chars with
      | [] => []
      | ch :: rest => ch :: neutralise rest
termination_by chars.length
decreasing_by
  · obtain ⟨rfl, -⟩ := direction_token_eq_some.mp _h
    simp only [List.length_append, List.length_cons]
    omega
  · simp

/-- The characters that mean something to Mermaid inside a label or behind it. -/
def BARRED : List Char :=
  ['\x22', '%', '&', ':', '[', ']', '|', '\x60', '\x7b', '\x7d', '\r', '\n']

theorem notMem_escape {c : Char} (hc : c ∈ BARRED) (ch : Char) : c ∉ escape ch := by
  unfold escape
  cases hentity : ESCAPES.lookup ch with
  | none =>
      rw [List.mem_singleton]
      rintro rfl
      revert hentity
      revert c
      decide
  | some entity =>
      have hmem : (ch, entity) ∈ ESCAPES := List.lookup_eq_some_iff.mp hentity |>.elim
        fun pre h => h.elim fun post h => h.1 ▸ by simp
      have hall : ∀ e ∈ ESCAPES, ∀ c ∈ BARRED, c ∉ e.2.toList := by decide
      exact hall _ hmem c hc

theorem notMem_neutralise {c : Char} (hc : c ∈ BARRED) {chars : List Char} (h : c ∉ chars) :
    c ∉ neutralise chars := by
  have hword : ∀ c ∈ BARRED, c ∉ DIRECTION ∧ c ≠ '#' ∧ c ≠ ';' ∧ c.isDigit = false := by decide
  obtain ⟨hnot, hhash, hsemi, hdigit⟩ := hword c hc
  fun_induction neutralise chars with
  | case1 chars blank rest htoken ih =>
      obtain ⟨rfl, -⟩ := direction_token_eq_some.mp htoken
      have hrest : c ∉ rest := fun hmem =>
        h (List.mem_append_right _ (List.mem_cons_of_mem _ hmem))
      have hcode : c ∉ blank.toNat.repr.toList := fun hmem => by
        rw [Decimal.isDigit_of_mem_repr hmem] at hdigit
        cases hdigit
      simp only [List.mem_append, List.mem_cons, not_or]
      exact ⟨⟨hnot, hhash, hcode⟩, hsemi, ih hrest⟩
  | case2 => exact h
  | case3 ch rest htoken ih =>
      simp only [List.mem_cons, not_or] at h ⊢
      exact ⟨h.1, ih h.2⟩

/-! ## Direction statements -/

/-- What Mermaid's lexer takes for a direction statement, wherever on a line it stands. -/
def IsDirection (word : List Char) : Prop :=
  ∃ blanks d, blanks ≠ [] ∧ (∀ c ∈ blanks, is_blank c) ∧ d ∈ DIRECTIONS ∧
    word = DIRECTION ++ (blanks ++ d)

def HasDirection (line : List Char) : Prop := ∃ word, IsDirection word ∧ word <:+: line

def LETTERS : List Char := ['T', 'B', 'R', 'L', 'D']

theorem two_letters : ∀ d ∈ DIRECTIONS, ∃ a ∈ LETTERS, ∃ b ∈ LETTERS, d = [a, b] := by decide

theorem not_is_blank_of_letter : ∀ c ∈ LETTERS, is_blank c = false := by decide

/-- The characters a direction statement is written with. -/
def in_direction (c : Char) : Bool := c ∈ DIRECTION || is_blank c || c ∈ LETTERS

theorem IsDirection.chars {word : List Char} (h : IsDirection word) :
    ∀ c ∈ word, in_direction c = true := by
  obtain ⟨blanks, d, -, hblank, hd, rfl⟩ := h
  have hletters : ∀ d ∈ DIRECTIONS, ∀ c ∈ d, c ∈ LETTERS := by decide
  intro c hc
  simp only [in_direction, Bool.or_eq_true, decide_eq_true_eq]
  rcases List.mem_append.mp hc with hc | hc
  · exact .inl (.inl hc)
  · rcases List.mem_append.mp hc with hc | hc
    · exact .inl (.inr (hblank c hc))
    · exact .inr (hletters d hd c hc)

/-- A run of characters that all differ from a separator lies on one side of it. -/
theorem infix_of_separated {α : Type} {word x y : List α} {c : α} (h : c ∉ word)
    (hin : word <:+: x ++ c :: y) : word <:+: x ∨ word <:+: y := by
  rcases List.infix_append_iff.mp hin with hx | hy | ⟨l, r, rfl, hl, hr⟩
  · exact .inl hx
  · rcases List.infix_cons_iff.mp hy with hpre | hy
    · cases word with
      | nil => exact .inl (List.nil_infix)
      | cons a word => exact absurd ((List.cons_prefix_cons.mp hpre).1 ▸ List.mem_cons_self) h
    · exact .inr hy
  · cases r with
    | nil => exact .inl (by simpa using hl.isInfix)
    | cons a r =>
        obtain ⟨rfl, -⟩ := List.cons_prefix_cons.mp hr
        exact absurd (List.mem_append_right l List.mem_cons_self) h

/-- A character that no direction statement has cuts the line in two. -/
theorem HasDirection.separated {x y : List Char} {c : Char} (hc : in_direction c = false)
    (h : HasDirection (x ++ c :: y)) : HasDirection x ∨ HasDirection y := by
  obtain ⟨word, hword, hin⟩ := h
  have hnot : c ∉ word := fun hmem => by
    rw [hword.chars c hmem] at hc
    cases hc
  exact (infix_of_separated hnot hin).imp (⟨word, hword, ·⟩) (⟨word, hword, ·⟩)

/-- A line with a direction statement has one of three capital letters, and a blank. -/
theorem HasDirection.capital {line : List Char} (h : HasDirection line) :
    ∃ c ∈ line, c ∈ ['T', 'R', 'L'] := by
  obtain ⟨word, ⟨blanks, d, -, -, hd, rfl⟩, hin⟩ := h
  have hcapital : ∀ d ∈ DIRECTIONS, ∃ c ∈ d, c ∈ ['T', 'R', 'L'] := by decide
  obtain ⟨c, hc, hletter⟩ := hcapital d hd
  exact ⟨c, hin.subset (List.mem_append_right _ (List.mem_append_right _ hc)), hletter⟩

theorem HasDirection.letter {line : List Char} (h : HasDirection line) : 'd' ∈ line := by
  obtain ⟨word, ⟨blanks, d, -, -, -, rfl⟩, hin⟩ := h
  exact hin.subset List.mem_cons_self

/-- Blanks around a line make no difference. -/
theorem HasDirection.of_blanks {line : List Char}
    (h : HasDirection (' ' :: (line ++ [' ']))) : HasDirection line := by
  obtain ⟨word, hword, hin⟩ := h
  refine ⟨word, hword, ?_⟩
  obtain ⟨blanks, d, -, -, hd, rfl⟩ := hword
  have hfront : DIRECTION ++ (blanks ++ d) <:+: line ++ [' '] := by
    rcases List.infix_cons_iff.mp hin with hpre | hin
    · cases (List.cons_prefix_cons.mp hpre).1
    · exact hin
  obtain ⟨a, -, b, hb, rfl⟩ := two_letters d hd
  rcases List.infix_concat_iff.mp hfront with hsuf | hin
  · rcases List.suffix_concat_iff.mp hsuf with hnil | ⟨t, ht, -⟩
    · cases hnil
    · -- a direction does not end with a blank
      have hend : (DIRECTION ++ (blanks ++ [a])) ++ [b] = t ++ [' '] := by simpa using ht
      have hspace : b = ' ' := by simpa using List.append_inj_right' hend rfl
      have hnot := not_is_blank_of_letter b hb
      rw [hspace] at hnot
      cases hnot
  · exact hin

/-! ## No direction is left -/

/-- The front of an escaped text was there before, when it has no `d`. -/
theorem front_of_neutralise {front back chars : List Char} (hd : 'd' ∉ front) :
    neutralise chars = front ++ back → front <+: chars := by
  fun_induction neutralise chars generalizing front with
  | case1 chars blank rest htoken ih =>
      intro h
      cases front with
      | nil => exact List.nil_prefix
      | cons a front => exact absurd ((List.cons.inj h).1 ▸ List.mem_cons_self) hd
  | case2 =>
      intro h
      exact (List.append_eq_nil_iff.mp h.symm).1 ▸ List.nil_prefix
  | case3 ch rest htoken ih =>
      intro h
      cases front with
      | nil => exact List.nil_prefix
      | cons a front =>
          obtain ⟨rfl, hrest⟩ := List.cons.inj h
          have hfront : 'd' ∉ front := fun hmem => hd (List.mem_cons_of_mem _ hmem)
          exact List.cons_prefix_cons.mpr ⟨rfl, ih hfront hrest⟩

/-- What the pattern looks for behind the first blank. -/
theorem prefix_dropWhile_blanks {blanks d rest : List Char} (hblank : ∀ c ∈ blanks, is_blank c)
    (hd : d ∈ DIRECTIONS) : d <+: (blanks ++ d ++ rest).dropWhile is_blank := by
  obtain ⟨a, ha, b, -, rfl⟩ := two_letters d hd
  have hstop : ([a, b] ++ rest).dropWhile is_blank = [a, b] ++ rest :=
    List.dropWhile_cons_of_neg (by simp [not_is_blank_of_letter a ha])
  rw [List.append_assoc, List.dropWhile_append_of_pos hblank, hstop]
  exact List.prefix_append _ _

/-- Escaping leaves no direction statement. -/
theorem not_hasDirection_neutralise (chars : List Char) : ¬ HasDirection (neutralise chars) := by
  fun_induction neutralise chars with
  | case1 chars blank rest htoken ih =>
      intro h
      rcases h.separated (by decide) with hentity | hrest
      · -- an entity has no capital letters
        obtain ⟨c, hc, hcapital⟩ := hentity.capital
        have hword : ∀ c ∈ ['T', 'R', 'L'], c ∉ DIRECTION ∧ c ≠ '#' ∧ c.isDigit = false := by
          decide
        obtain ⟨hnot, hhash, hdigit⟩ := hword c hcapital
        rcases List.mem_append.mp hc with hc | hc
        · exact hnot hc
        · rcases List.mem_cons.mp hc with hc | hc
          · exact hhash hc
          · rw [Decimal.isDigit_of_mem_repr hc] at hdigit
            cases hdigit
      · exact ih hrest
  | case2 =>
      rintro ⟨word, ⟨blanks, d, -, -, -, rfl⟩, hin⟩
      cases List.infix_nil.mp hin
  | case3 ch rest htoken ih =>
      rintro ⟨word, hword, hin⟩
      rcases List.infix_cons_iff.mp hin with hpre | hin
      · -- a statement that starts here was a match before
        obtain ⟨blanks, d, hne, hblank, hd, rfl⟩ := hword
        obtain ⟨rfl, back, hback⟩ := List.cons_prefix_cons.mp hpre
        have hfree : 'd' ∉ DIRECTION.tail ++ (blanks ++ d) := by
          obtain ⟨a, ha, b, hb, rfl⟩ := two_letters d hd
          have hletter : ∀ c ∈ LETTERS, 'd' ≠ c := by decide
          simp only [List.mem_append, List.mem_cons, List.not_mem_nil, or_false, not_or]
          exact ⟨by decide, fun hmem => absurd (hblank _ hmem) (by decide), hletter a ha,
            hletter b hb⟩
        obtain ⟨behind, hbehind⟩ := front_of_neutralise hfree hback.symm
        obtain ⟨blank, blanks, rfl⟩ := List.exists_cons_of_ne_nil hne
        have htaken : direction_token ('d' :: rest) = some (blank, blanks ++ d ++ behind) := by
          rw [direction_token_eq_some]
          refine ⟨?_, hblank _ List.mem_cons_self, d, hd, ?_⟩
          · rw [← hbehind]
            simp [DIRECTION]
          · exact prefix_dropWhile_blanks (fun c hc => hblank c (List.mem_cons_of_mem _ hc)) hd
        cases htaken.symm.trans htoken
      · exact ih ⟨word, hword, hin⟩

/-! ## Labels -/

/-- The text cannot end the quotes or the line around it, open a directive or a comment, or
make its line a direction statement. -/
structure Safe (label : List Char) : Prop where
  barred : ∀ c ∈ BARRED, c ∉ label
  direction : ¬ HasDirection label

/-- A text that is safe inside quotes. -/
abbrev Label : Type := { label : String // Safe label.toList }

/-- Two safe texts around a character that neither a direction nor an ending has. -/
theorem Safe.append {a b : List Char} {c : Char} (ha : Safe a) (hb : Safe b) (hbarred : c ∉ BARRED)
    (hc : in_direction c = false) : Safe (a ++ c :: b) where
  barred c' hc' hmem := by
    rcases List.mem_append.mp hmem with hmem | hmem
    · exact ha.barred c' hc' hmem
    · rcases List.mem_cons.mp hmem with rfl | hmem
      · exact hbarred hc'
      · exact hb.barred c' hc' hmem
  direction h := (h.separated hc).elim ha.direction hb.direction

/-- A character that is neither barred nor a capital letter of a direction. -/
def is_plain (c : Char) : Bool := c ∉ BARRED && c ∉ ['T', 'R', 'L']

theorem Safe.of_plain {a : List Char} (h : ∀ c ∈ a, is_plain c) : Safe a where
  barred c hc hmem := by
    have := h c hmem
    simp [is_plain, hc] at this
  direction hdirection := by
    obtain ⟨c, hc, hcapital⟩ := hdirection.capital
    have := h c hc
    simp [is_plain, hcapital] at this

theorem is_plain_of_isDigit {c : Char} (h : c.isDigit = true) : is_plain c = true := by
  have hother : ∀ c, c ∈ BARRED ∨ c ∈ ['T', 'R', 'L'] → c.isDigit = false := by
    have hall : ∀ c ∈ BARRED ++ ['T', 'R', 'L'], c.isDigit = false := by decide
    exact fun c hc => hall c (List.mem_append.mpr hc)
  by_contra hplain
  simp only [is_plain, Bool.and_eq_true, decide_eq_true_eq, not_and_or, not_not] at hplain
  rw [hother c hplain] at h
  cases h

theorem is_plain_repr {n : Nat} {c : Char} (h : c ∈ n.repr.toList) : is_plain c = true :=
  is_plain_of_isDigit (Decimal.isDigit_of_mem_repr h)

/-- `_mermaid_label`. -/
def mermaid_label (text : String) : Label :=
  ⟨String.ofList (neutralise (text.toList.flatMap escape)), by
    rw [String.toList_ofList]
    refine ⟨fun c hc => notMem_neutralise hc ?_, not_hasDirection_neutralise _⟩
    intro hmem
    obtain ⟨ch, -, hch⟩ := List.mem_flatMap.mp hmem
    exact notMem_escape hc ch hch⟩

/-- A label and a smaller one under it: `…<br/><small>…</small>`. -/
def Label.small (main sub : Label) : Label :=
  ⟨main.1 ++ "<br/><small>" ++ sub.1 ++ "</small>", by
    have hopen : Safe "br/><small".toList := .of_plain (by decide)
    have hclose : Safe "/small>".toList := .of_plain (by decide)
    have hsplit : (main.1 ++ "<br/><small>" ++ sub.1 ++ "</small>").toList =
        main.1.toList ++ '<' :: ("br/><small".toList ++ '>' :: (sub.1.toList ++ '<' ::
          "/small>".toList)) := by
      simp only [String.toList_append, List.append_assoc]
      rfl
    rw [hsplit]
    exact main.2.append (hopen.append (sub.2.append hclose (by decide) (by decide)) (by decide)
      (by decide)) (by decide) (by decide)⟩

/-- `f"{n} {'node' if n == 1 else 'nodes'}"`. -/
def node_count (n : Nat) : Label :=
  ⟨n.repr ++ " " ++ (if n = 1 then "node" else "nodes"), by
    have hword : ∀ c ∈ (if n = 1 then "node" else "nodes").toList, is_plain c = true := by
      split <;> decide
    refine .of_plain fun c hc => ?_
    rw [String.toList_append, String.toList_append, List.mem_append, List.mem_append] at hc
    rcases hc with (hdigit | hblank) | hmem
    · exact is_plain_repr hdigit
    · obtain rfl : c = ' ' := by simpa using hblank
      decide
    · exact hword c hmem⟩

/-! ## Lines -/

/-- `FAMILY_COLORS`. -/
def FAMILY_COLORS : List (String × String) :=
  [("data", "#3b82f6"), ("clean", "#14b8a6"), ("stats", "#a78bfa"), ("ml", "#f59e0b"),
    ("nn", "#ec4899"), ("reports", "#10b981"), ("transform", "#f97316"), ("notes", "#eab308"),
    ("viz", "#06b6d4"), ("timeseries", "#0ea5e9"), ("recommend", "#d946ef"),
    ("explain", "#f43f5e"), ("llm", "#818cf8"), ("eval", "#84cc16"), ("embed", "#2dd4bf"),
    ("research", "#64748b"), ("script", "#94a3b8"), ("causal", "#8b5cf6"),
    ("psychometrics", "#0ea5e9"), ("layout", "#64748b")]

abbrev Family : Type := { family : String × String // family ∈ FAMILY_COLORS }

/-- An id of the diagram: nothing in it has a meaning of its own. -/
abbrev Id : Type := { id : String // ∀ c ∈ id.toList, is_plain c = true }

/-- A line of the diagram. -/
inductive Line where
  | header (direction : { d : String // d = "LR" ∨ d = "TB" })
  | truncated (omitted : Int) (count : Nat) (limit : Int)
  | flattened (level : Nat) (title : Label) (count : Nat)
  | node (level : Nat) (mid : Id) (text : Label)
  | subgraph (level : Nat) (mid : Id) (text : Label)
  | close (level : Nat)
  | edge (a b : Id) (label : Option Label)
  | family_def (family : Family)
  | family_class (ids : List Id) (family : Family)
  | highlight_def
  | highlight_class (ids : List Id)

/-- `_INDENT * level`. -/
def pad (level : Nat) : String := String.ofList (List.replicate (4 * level) ' ')

/-- `",".join`. -/
def comma_separated (ids : List Id) : String := String.intercalate "," (ids.map Subtype.val)

/-- What the line looks like. -/
def Line.text : Line → String
  | .header direction => "flowchart " ++ direction.1
  | .truncated omitted count limit =>
      pad 1 ++ "%% truncated: " ++ omitted.repr ++ " of " ++ count.repr ++
        " nodes not drawn individually (limit " ++ limit.repr ++
        "); GitHub caps Mermaid diagram size"
  | .flattened level title count =>
      pad level ++ "%% flattened: nested subgraph of " ++ title.1 ++ " (" ++ count.repr ++
        " nodes) not shown"
  | .node level mid text => pad level ++ mid.1 ++ "[\"" ++ text.1 ++ "\"]"
  | .subgraph level mid text => pad level ++ "subgraph " ++ mid.1 ++ "[\"" ++ text.1 ++ "\"]"
  | .close level => pad level ++ "end"
  | .edge a b (some label) => pad 1 ++ a.1 ++ " -->|\"" ++ label.1 ++ "\"| " ++ b.1
  | .edge a b none => pad 1 ++ a.1 ++ " --> " ++ b.1
  | .family_def family =>
      pad 1 ++ "classDef fam_" ++ family.1.1 ++ " stroke:" ++ family.1.2 ++ ",stroke-width:2px"
  | .family_class ids family =>
      pad 1 ++ "class " ++ comma_separated ids ++ " fam_" ++ family.1.1
  | .highlight_def => pad 1 ++ "classDef highlight stroke:#ef4444,stroke-width:4px"
  | .highlight_class ids => pad 1 ++ "class " ++ comma_separated ids ++ " highlight"

/-- The lines with a quoted label. -/
def Line.quoted : Line → Bool
  | .node .. | .subgraph .. | .edge _ _ (some _) => true
  | _ => false

def Line.comment : Line → Bool
  | .truncated .. | .flattened .. => true
  | _ => false

/-- The text is one line, and has just the quotes and the percent signs that are counted. -/
structure Written (text : List Char) (quotes percents : Nat) : Prop where
  newline : '\n' ∉ text
  carriage : '\r' ∉ text
  quotes : text.count '\x22' = quotes
  percents : text.count '%' = percents
  direction : ¬ HasDirection text

/-- A character of the texts around the labels. -/
def is_quiet (c : Char) : Bool := c ∉ ['\x22', '%', '\r', '\n', 'T', 'R', 'L']

def Quiet (text : List Char) : Prop := ∀ c ∈ text, is_quiet c = true

instance (text : List Char) : Decidable (Quiet text) :=
  inferInstanceAs (Decidable (∀ c ∈ text, is_quiet c = true))

theorem quiet_append {a b : List Char} : Quiet (a ++ b) ↔ Quiet a ∧ Quiet b :=
  List.forall_mem_append

theorem quiet_of_plain {text : List Char} (h : ∀ c ∈ text, is_plain c = true) : Quiet text := by
  have hloud : ∀ c ∈ ['\x22', '%', '\r', '\n', 'T', 'R', 'L'], is_plain c = false := by decide
  intro c hc
  by_contra hquiet
  simp only [is_quiet, decide_not, Bool.not_eq_true', decide_eq_false_iff_not, not_not] at hquiet
  exact absurd (h c hc) (by simp [hloud c hquiet])

theorem Written.of_quiet {text : List Char} (h : Quiet text) : Written text 0 0 := by
  have hnot : ∀ c, is_quiet c = false → c ∉ text := fun c hc hmem => by
    rw [h c hmem] at hc
    cases hc
  refine ⟨hnot _ (by decide), hnot _ (by decide), List.count_eq_zero.mpr (hnot _ (by decide)),
    List.count_eq_zero.mpr (hnot _ (by decide)), fun hdirection => ?_⟩
  obtain ⟨c, hc, hcapital⟩ := hdirection.capital
  have hloud : ∀ c ∈ ['T', 'R', 'L'], is_quiet c = false := by decide
  exact hnot c (hloud c hcapital) hc

/-- A safe text between two quiet ones, in quotes. -/
theorem Written.of_quoted {a label b : List Char} (ha : Quiet a) (hlabel : Safe label)
    (hb : Quiet b) : Written (a ++ '\x22' :: (label ++ '\x22' :: b)) 2 0 := by
  have ha := Written.of_quiet ha
  have hb := Written.of_quiet hb
  have hnot := fun c (hc : c ∈ BARRED) => hlabel.barred c hc
  refine ⟨?_, ?_, ?_, ?_, ?_⟩
  · simp [ha.newline, hb.newline, hnot '\n' (by decide)]
  · simp [ha.carriage, hb.carriage, hnot '\r' (by decide)]
  · simp [ha.quotes, hb.quotes, List.count_eq_zero.mpr (hnot '\x22' (by decide))]
  · simp [ha.percents, hb.percents, List.count_eq_zero.mpr (hnot '%' (by decide))]
  · intro h
    rcases h.separated (by decide) with h | h
    · exact ha.direction h
    · exact (h.separated (by decide)).elim hlabel.direction hb.direction

theorem Written.of_note {a b : List Char} (ha : Quiet a) (hb : Quiet b) :
    Written (a ++ '%' :: '%' :: b) 0 2 := by
  have ha := Written.of_quiet ha
  have hb := Written.of_quiet hb
  refine ⟨?_, ?_, ?_, ?_, ?_⟩
  · simp [ha.newline, hb.newline]
  · simp [ha.carriage, hb.carriage]
  · simp [ha.quotes, hb.quotes]
  · simp [ha.percents, hb.percents]
  · intro h
    rcases h.separated (by decide) with h | h
    · exact ha.direction h
    · rcases HasDirection.separated (x := []) (by decide) h with h | h
      · cases h.letter
      · exact hb.direction h

/-- A safe text in a comment, between blanks. -/
theorem Written.of_comment {a b label c : List Char} (ha : Quiet a) (hb : Quiet b)
    (hlabel : Safe label) (hc : Quiet c) :
    Written (a ++ '%' :: '%' :: (b ++ 'f' :: ' ' :: (label ++ ' ' :: '(' :: c))) 0 2 := by
  have ha := Written.of_quiet ha
  have hb := Written.of_quiet hb
  have hc := Written.of_quiet hc
  have hnot := fun c (hc : c ∈ BARRED) => hlabel.barred c hc
  refine ⟨?_, ?_, ?_, ?_, ?_⟩
  · simp [ha.newline, hb.newline, hc.newline, hnot '\n' (by decide)]
  · simp [ha.carriage, hb.carriage, hc.carriage, hnot '\r' (by decide)]
  · simp [ha.quotes, hb.quotes, hc.quotes, List.count_eq_zero.mpr (hnot '\x22' (by decide))]
  · simp [ha.percents, hb.percents, hc.percents, List.count_eq_zero.mpr (hnot '%' (by decide))]
  · intro h
    rcases h.separated (by decide) with h | h
    · exact ha.direction h
    rcases HasDirection.separated (x := []) (by decide) h with h | h
    · cases h.letter
    rcases h.separated (by decide) with h | h
    · exact hb.direction h
    -- what is between the last `f` and the bracket
    have hcut : ' ' :: (label ++ ' ' :: '(' :: c) = (' ' :: (label ++ [' '])) ++ '(' :: c := by simp
    rw [hcut] at h
    exact (h.separated (by decide)).elim (fun h => hlabel.direction h.of_blanks) hc.direction

theorem quiet_pad (level : Nat) : Quiet (pad level).toList := by
  intro c hc
  rw [pad, String.toList_ofList] at hc
  rw [List.eq_of_mem_replicate hc]
  decide

theorem quiet_id (mid : Id) : Quiet mid.1.toList := quiet_of_plain mid.2

theorem quiet_repr (n : Nat) : Quiet n.repr.toList := quiet_of_plain fun _ => is_plain_repr

theorem quiet_int_repr (a : Int) : Quiet a.repr.toList := by
  refine quiet_of_plain fun c hc => ?_
  rcases Decimal.mem_int_repr hc with hdigit | rfl
  · exact is_plain_of_isDigit hdigit
  · decide

theorem quiet_comma_separated (ids : List Id) : Quiet (comma_separated ids).toList := by
  induction ids with
  | nil => decide
  | cons mid ids ih =>
      cases ids with
      | nil =>
          rw [comma_separated, List.map_singleton, String.intercalate_singleton]
          exact quiet_id mid
      | cons mid' ids =>
          rw [comma_separated, List.map_cons, List.map_cons, String.intercalate_cons_cons,
            String.toList_append, String.toList_append, quiet_append, quiet_append]
          exact ⟨⟨quiet_id mid, by decide⟩, ih⟩

theorem quiet_family (family : Family) :
    Quiet family.1.1.toList ∧ Quiet family.1.2.toList := by
  have hall : ∀ e ∈ FAMILY_COLORS, Quiet e.1.toList ∧ Quiet e.2.toList := by decide
  exact hall family.1 family.2

/-- Every line is one line; a labelled one has the two quotes around its label, a comment the
two percent signs in front, and no other line has any. -/
theorem Line.written (line : Line) : Written line.text.toList (if line.quoted then 2 else 0)
    (if line.comment then 2 else 0) := by
  cases line with
  | header direction =>
      have hletter : ∀ d ∈ ["LR", "TB"], 'd' ∉ ("flowchart " ++ d).toList := by decide
      obtain ⟨d, rfl | rfl⟩ := direction
      · exact ⟨by decide, by decide, by decide, by decide,
          fun h => hletter "LR" (by decide) h.letter⟩
      · exact ⟨by decide, by decide, by decide, by decide,
          fun h => hletter "TB" (by decide) h.letter⟩
  | truncated omitted count limit =>
      have hsplit : (Line.truncated omitted count limit).text.toList =
          (pad 1).toList ++ '%' :: '%' :: (" truncated: " ++ omitted.repr ++ " of " ++ count.repr ++
            " nodes not drawn individually (limit " ++ limit.repr ++
            "); GitHub caps Mermaid diagram size").toList := by
        simp [Line.text]
      rw [hsplit]
      refine .of_note (quiet_pad 1) ?_
      simp only [String.toList_append, quiet_append]
      exact ⟨⟨⟨⟨⟨⟨by decide, quiet_int_repr omitted⟩, by decide⟩, quiet_repr count⟩, by decide⟩,
        quiet_int_repr limit⟩, by decide⟩
  | flattened level title count =>
      have hsplit : (Line.flattened level title count).text.toList =
          (pad level).toList ++ '%' :: '%' :: (" flattened: nested subgraph o".toList ++
            'f' :: ' ' :: (title.1.toList ++
              ' ' :: '(' :: (count.repr ++ " nodes) not shown").toList)) := by
        simp [Line.text]
      rw [hsplit]
      refine .of_comment (quiet_pad level) (by decide) title.2 ?_
      rw [String.toList_append, quiet_append]
      exact ⟨quiet_repr count, by decide⟩
  | node level mid text =>
      have hsplit : (Line.node level mid text).text.toList =
          (pad level ++ mid.1 ++ "[").toList ++ '\x22' :: (text.1.toList ++ '\x22' :: [']']) := by
        simp [Line.text]
      rw [hsplit]
      refine .of_quoted ?_ text.2 (by decide)
      simp only [String.toList_append, quiet_append]
      exact ⟨⟨quiet_pad level, quiet_id mid⟩, by decide⟩
  | subgraph level mid text =>
      have hsplit : (Line.subgraph level mid text).text.toList =
          (pad level ++ "subgraph " ++ mid.1 ++ "[").toList ++
            '\x22' :: (text.1.toList ++ '\x22' :: [']']) := by
        simp [Line.text]
      rw [hsplit]
      refine .of_quoted ?_ text.2 (by decide)
      simp only [String.toList_append, quiet_append]
      exact ⟨⟨⟨quiet_pad level, by decide⟩, quiet_id mid⟩, by decide⟩
  | close level =>
      refine .of_quiet ?_
      simp only [Line.text, String.toList_append, quiet_append]
      exact ⟨quiet_pad level, by decide⟩
  | edge a b label =>
      cases label with
      | none =>
          refine .of_quiet ?_
          simp only [Line.text, String.toList_append, quiet_append]
          exact ⟨⟨⟨quiet_pad 1, quiet_id a⟩, by decide⟩, quiet_id b⟩
      | some label =>
          have hsplit : (Line.edge a b (some label)).text.toList =
              (pad 1 ++ a.1 ++ " -->|").toList ++
                '\x22' :: (label.1.toList ++ '\x22' :: ("| " ++ b.1).toList) := by
            simp [Line.text]
          rw [hsplit]
          refine .of_quoted ?_ label.2 ?_
          · simp only [String.toList_append, quiet_append]
            exact ⟨⟨quiet_pad 1, quiet_id a⟩, by decide⟩
          · rw [String.toList_append, quiet_append]
            exact ⟨by decide, quiet_id b⟩
  | family_def family =>
      obtain ⟨hname, hcolor⟩ := quiet_family family
      refine .of_quiet ?_
      simp only [Line.text, String.toList_append, quiet_append]
      exact ⟨⟨⟨⟨⟨quiet_pad 1, by decide⟩, hname⟩, by decide⟩, hcolor⟩, by decide⟩
  | family_class ids family =>
      refine .of_quiet ?_
      simp only [Line.text, String.toList_append, quiet_append]
      exact ⟨⟨⟨⟨quiet_pad 1, by decide⟩, quiet_comma_separated ids⟩, by decide⟩,
        (quiet_family family).1⟩
  | highlight_def =>
      exact .of_quiet (by decide)
  | highlight_class ids =>
      refine .of_quiet ?_
      simp only [Line.text, String.toList_append, quiet_append]
      exact ⟨⟨⟨quiet_pad 1, by decide⟩, quiet_comma_separated ids⟩, by decide⟩

/-- `"\n".join([…]) + "\n"`. -/
def document (lines : List Line) : String :=
  String.intercalate "\n" (lines.map Line.text) ++ "\n"

theorem intercalate_concat_nil {α : Type} {sep : List α} {pieces : List (List α)}
    (hne : pieces ≠ []) : sep.intercalate (pieces ++ [[]]) = sep.intercalate pieces ++ sep := by
  induction pieces with
  | nil => exact absurd rfl hne
  | cons piece pieces ih =>
      cases pieces with
      | nil => simp
      | cons piece' pieces =>
          rw [List.cons_append, List.cons_append, List.intercalate_cons_cons,
            List.intercalate_cons_cons, ← List.cons_append, ih (List.cons_ne_nil _ _),
            List.append_assoc (piece ++ sep)]

/-- Cut at its newlines, a document is the lines it was made of. -/
theorem splitOn_document {lines : List Line} (hne : lines ≠ []) :
    (document lines).toList.splitOn '\n' = lines.map (·.text.toList) ++ [[]] := by
  have hjoin : (document lines).toList =
      List.intercalate ['\n'] (lines.map (·.text.toList) ++ [[]]) := by
    rw [document, String.toList_append, String.toList_intercalate, List.map_map,
      intercalate_concat_nil (List.map_eq_nil_iff.not.mpr hne)]
    rfl
  rw [hjoin]
  refine List.splitOn_intercalate '\n' (fun l hl => ?_) (by simp)
  rcases List.mem_append.mp hl with hl | hl
  · obtain ⟨line, -, rfl⟩ := List.mem_map.mp hl
    exact line.written.newline
  · rw [List.mem_singleton.mp hl]
    exact List.not_mem_nil

end EmergentFlow.Mermaid
