import EmergentFlow.Lib.Words
import EmergentFlow.Server.FlowLibrary

/-!
# Server — Flow Slugs

The boundary between slugs and files (`_SLUG_RE`, `slugify` and `_path` of `server/flows.py`).
What `slugify` makes is a list of words of slug characters with single hyphens between them,
and such a list is a slug of the store. The store takes one thing more: the `$` of its pattern
also matches before a final newline, so that a slug with a newline behind it is accepted.
-/

namespace EmergentFlow

/-! ## Characters -/

theorem toNat_of_is_slug_char {c : Char} (h : is_slug_char c = true) :
    (97 ≤ c.toNat ∧ c.toNat ≤ 122) ∨ (48 ≤ c.toNat ∧ c.toNat ≤ 57) := by
  simp only [is_slug_char, Bool.or_eq_true, Bool.and_eq_true, decide_eq_true_eq] at h
  exact h

theorem not_is_space_of_is_slug_char {c : Char} (h : is_slug_char c = true) :
    is_space c = false := by
  have hrange := toNat_of_is_slug_char h
  simp only [is_space, Bool.or_eq_false_iff, Bool.and_eq_false_iff, decide_eq_false_iff_not]
  omega

/-- Lower case and digits stay as they are. -/
theorem py_lower_of_is_slug_char {c : Char} (h : is_slug_char c = true) : py_lower c = [c] := by
  have hrange := toNat_of_is_slug_char h
  have hupper : ¬ ('A' ≤ c ∧ c ≤ 'Z') := by
    show ¬ (65 ≤ c.toNat ∧ c.toNat ≤ 90)
    omega
  simp only [py_lower, Bool.and_eq_true, decide_eq_true_eq]
  rw [if_neg hupper, if_neg (by omega), if_neg (by omega)]

theorem not_is_slug_char_hyphen : is_slug_char '-' = false := by decide

/-! ## The two recognisers -/

/-- Runs of slug characters between single hyphens. -/
abbrev Sluglike (chars : List Char) : Prop := Words.Worded is_slug_char '-' chars

theorem Sluglike.item {chars : List Char} (h : Sluglike chars) {c : Char} (hc : c ∈ chars) :
    is_space c = false ∧ py_lower c = [c] ∧ c ≠ '\n' := by
  rcases h.items c hc with hslug | rfl
  · refine ⟨not_is_space_of_is_slug_char hslug, py_lower_of_is_slug_char hslug, ?_⟩
    rintro rfl
    exact absurd hslug (by decide)
  · decide

theorem hyphenate_eq (gap : Bool) (chars : List Char) :
    hyphenate gap chars = Words.collapse is_slug_char '-' gap chars := by
  induction chars generalizing gap with
  | nil => rfl
  | cons c rest ih => simp only [hyphenate, Words.collapse, ih]

/-- The words of a name, with single hyphens between them. -/
def hyphenated (name : String) : List Char :=
  Words.trim '-' (hyphenate false ((py_strip name.toList).flatMap py_lower))

theorem slugify_eq (name : String) :
    slugify name = if hyphenated name = [] then "untitled" else String.ofList (hyphenated name) := by
  have hempty : String.ofList (hyphenated name) = "" ↔ hyphenated name = [] := by
    rw [← String.toList_inj, String.toList_ofList]
    rfl
  simp only [← hempty]
  rfl

/-- Whatever the name, the result has the shape of a slug. -/
theorem slugify_sluglike (name : String) : Sluglike (slugify name).toList := by
  rw [slugify_eq]
  split
  · exact (Words.all_splitOn_iff not_is_slug_char_hyphen).mp (by decide)
  · next hne =>
      rw [String.toList_ofList]
      refine Words.worded_trim ?_ hne
      rw [hyphenate_eq]
      exact (Words.collapse_joined not_is_slug_char_hyphen false).1

theorem py_strip_eq_self {chars : List Char} (h : ∀ c ∈ chars, is_space c = false) :
    py_strip chars = chars := by
  have hstart : chars.dropWhile is_space = chars := by
    rw [List.dropWhile_eq_self_iff]
    intro hpos
    simp [h _ (List.getElem_mem hpos)]
  rw [py_strip, hstart, List.rdropWhile_eq_self_iff]
  intro hne
  simp [h _ (List.getLast_mem hne)]

theorem flatMap_py_lower {chars : List Char} (h : ∀ c ∈ chars, py_lower c = [c]) :
    chars.flatMap py_lower = chars := by
  induction chars with
  | nil => rfl
  | cons c rest ih =>
      obtain ⟨hc, hrest⟩ := List.forall_mem_cons.mp h
      rw [List.flatMap_cons, hc, ih hrest]
      rfl

/-- A text of the shape of a slug is left as it is. -/
theorem slugify_eq_self {slug : String} (h : Sluglike slug.toList) : slugify slug = slug := by
  have hname : hyphenated slug = slug.toList := by
    rw [hyphenated, py_strip_eq_self fun c hc => (h.item hc).1,
      flatMap_py_lower fun c hc => (h.item hc).2.1, hyphenate_eq,
      Words.collapse_eq_self not_is_slug_char_hyphen false h.toJoined nofun, Words.trim_eq_self h]
  rw [slugify_eq, hname, if_neg h.ne_nil, String.ofList_toList]

/-- A slug with a newline behind it. -/
def NewlineBehind (slug : String) : Prop := ∃ chars, Sluglike chars ∧ slug.toList = chars ++ ['\n']

/-- The pattern matches the texts of the shape of a slug, and those with a newline behind them. -/
theorem slug_re_iff {slug : String} :
    slug_re slug = true ↔ Sluglike slug.toList ∨ NewlineBehind slug := by
  have hword : (fun run : List Char => !run.isEmpty && run.all is_slug_char) =
      Words.is_word is_slug_char := rfl
  rw [slug_re, hword, Words.all_splitOn_iff not_is_slug_char_hyphen]
  split
  · next hlast =>
      obtain ⟨chars, hchars⟩ := List.getLast?_eq_some_iff.mp hlast
      rw [NewlineBehind, hchars, List.dropLast_concat]
      constructor
      · exact fun h => .inr ⟨chars, h, rfl⟩
      · intro h
        rcases h with h | ⟨chars', h, heq⟩
        · exact absurd rfl (h.item (List.mem_concat_self)).2.2
        · rwa [List.append_cancel_right heq]
  · next hlast =>
      constructor
      · exact .inl
      · intro h
        rcases h with h | ⟨chars, -, hchars⟩
        · exact h
        · rw [hchars] at hlast
          simp at hlast

/-! ## Files -/

/-- The store takes the text for a slug. -/
def FlowStore.Accepts (slug : String) : Prop := ∀ s, ∃ k, FlowStore.path slug s = (.ok k, s)

theorem FlowStore.accepts_iff {slug : String} : Accepts slug ↔ slug_re slug = true := by
  constructor
  · intro h
    obtain ⟨k, hk⟩ := h {}
    rw [← (path_eq_ok.mp hk).1]
    exact k.2
  · exact fun h s => ⟨⟨slug, h⟩, path_eq_ok.mpr ⟨rfl, rfl⟩⟩

/-- `root / name`: an absolute name replaces the root, and empty and `.` parts do not count. -/
def join_path (root : List (List Char)) (name : String) : List (List Char) :=
  let parts := (name.toList.splitOn '/').filter fun part => !(part == [] || part == ['.'])
  if name.toList.head? = some '/' then parts else root ++ parts

/-- The path that `_path` returns. -/
def FlowStore.file (root : List (List Char)) (slug : String) : List (List Char) :=
  join_path root (slug ++ ".ef.json")

/-- Without a `/` in it the name of the file is one part below the root. -/
theorem FlowStore.file_eq {slug : String} (hslash : '/' ∉ slug.toList)
    (root : List (List Char)) : file root slug = root ++ [(slug ++ ".ef.json").toList] := by
  have hname : (slug ++ ".ef.json").toList = slug.toList ++ ".ef.json".toList :=
    String.toList_append
  have habsent : '/' ∉ (slug ++ ".ef.json").toList := by
    rw [hname, List.mem_append, not_or]
    exact ⟨hslash, by decide⟩
  have hlong : 8 ≤ (slug ++ ".ef.json").toList.length := by
    rw [hname, List.length_append]
    exact Nat.le_add_left _ _
  rw [file, join_path]
  generalize (slug ++ ".ef.json").toList = name at habsent hlong
  have hstart : name.head? ≠ some '/' := fun h => habsent (List.mem_of_mem_head? h)
  have hkept : ∀ part ∈ [name], (!(part == [] || part == ['.'])) = true := by
    intro part hpart
    obtain rfl := List.mem_singleton.mp hpart
    rw [Bool.not_eq_true', Bool.or_eq_false_iff, beq_eq_false_iff_ne, beq_eq_false_iff_ne]
    constructor <;> (rintro rfl; simp at hlong)
  rw [if_neg hstart, List.splitOn_eq_singleton habsent, List.filter_eq_self.mpr hkept]

/-! ## The boundary -/

/-- What the boundary promises of a text: it is taken for a slug just when `slugify` leaves it
alone, what `slugify` makes of it is taken and stays as it is, and a text that is taken has no
character with a meaning in a path, so that its file is one of the root and of no other slug. -/
structure SlugLaw (slug : String) : Prop where
  accepted : FlowStore.Accepts slug ↔ slugify slug = slug
  again : slugify (slugify slug) = slugify slug
  result : FlowStore.Accepts (slugify slug)
  clean : FlowStore.Accepts slug →
    ∀ c ∈ slug.toList, c ≠ '/' ∧ c ≠ '\\' ∧ c ≠ '.' ∧ is_space c = false
  inside : FlowStore.Accepts slug → ∀ root, ∃ name,
    FlowStore.file root slug = root ++ [name] ∧ name ≠ ['.', '.']
  apart : FlowStore.Accepts slug → ∀ root other, FlowStore.Accepts other →
    FlowStore.file root other = FlowStore.file root slug → other = slug

/-- The characters of a text that is taken, but for a newline behind them. -/
theorem not_slash_of_slug_re {slug : String} (h : slug_re slug = true) : '/' ∉ slug.toList := by
  have hitem : ∀ chars, Sluglike chars → '/' ∉ chars := by
    intro chars hchars hmem
    rcases hchars.items _ hmem with hslug | heq
    · exact absurd hslug (by decide)
    · exact absurd heq (by decide)
  rcases slug_re_iff.mp h with h | ⟨chars, h, hchars⟩
  · exact hitem _ h
  · rw [hchars, List.mem_append, not_or]
    exact ⟨hitem _ h, by decide⟩

theorem Sluglike.clean {chars : List Char} (h : Sluglike chars) {c : Char} (hc : c ∈ chars) :
    c ≠ '/' ∧ c ≠ '\\' ∧ c ≠ '.' ∧ is_space c = false := by
  refine ⟨?_, ?_, ?_, (h.item hc).1⟩ <;>
  · rintro rfl
    rcases h.items _ hc with hslug | heq
    · exact absurd hslug (by decide)
    · exact absurd heq (by decide)

/-- With a newline behind it the text is taken, and the newline is white space in it. -/
theorem NewlineBehind.not_law {slug : String} (h : NewlineBehind slug) : ¬ SlugLaw slug := by
  intro law
  have haccepted : FlowStore.Accepts slug := FlowStore.accepts_iff.mpr (slug_re_iff.mpr (.inr h))
  obtain ⟨chars, -, heq⟩ := h
  have hspace := (law.clean haccepted '\n' (by simp [heq])).2.2.2
  exact absurd hspace (by decide)

/-- The boundary holds of every text but a slug with a newline behind it. -/
theorem slug_law_iff (slug : String) : SlugLaw slug ↔ ¬ NewlineBehind slug := by
  constructor
  · exact fun law h => h.not_law law
  · intro hnot
    have hshape : FlowStore.Accepts slug ↔ Sluglike slug.toList := by
      rw [FlowStore.accepts_iff, slug_re_iff]
      exact or_iff_left hnot
    have hfile : ∀ other root, FlowStore.Accepts other →
        FlowStore.file root other = root ++ [(other ++ ".ef.json").toList] :=
      fun other root h => FlowStore.file_eq (not_slash_of_slug_re (FlowStore.accepts_iff.mp h)) root
    refine ⟨hshape.trans ⟨slugify_eq_self, fun h => h ▸ slugify_sluglike slug⟩,
      slugify_eq_self (slugify_sluglike slug),
      FlowStore.accepts_iff.mpr (slug_re_iff.mpr (.inl (slugify_sluglike slug))),
      fun h c hc => (hshape.mp h).clean hc, fun h root => ⟨_, hfile slug root h, ?_⟩, ?_⟩
    · intro hdots
      have hlength := congrArg List.length hdots
      rw [String.toList_append, List.length_append] at hlength
      have : ".ef.json".toList.length = 8 := rfl
      have : ['.', '.'].length = 2 := rfl
      omega
    · intro h root other hother heq
      rw [hfile slug root h, hfile other root hother] at heq
      have hname := List.singleton_inj.mp (List.append_cancel_left heq)
      rw [String.toList_append, String.toList_append] at hname
      exact String.toList_inj.mp (List.append_cancel_right hname)

/-- Such a text is taken though `slugify` makes another one of it. -/
theorem newline_slug_breaks_boundary :
    FlowStore.Accepts "a\n" ∧ slugify "a\n" = "a" ∧ ¬ SlugLaw "a\n" := by
  have hword : Sluglike ['a'] := (Words.all_splitOn_iff not_is_slug_char_hyphen).mp (by decide)
  have hnewline : NewlineBehind "a\n" := ⟨['a'], hword, rfl⟩
  exact ⟨FlowStore.accepts_iff.mpr (slug_re_iff.mpr (.inr hnewline)), by decide, hnewline.not_law⟩

end EmergentFlow
