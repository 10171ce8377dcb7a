import Mathlib.Data.List.Basic

/-!
# TaggedText — names tagged with codes of one length

A list of entries, each a name, a separator and a code of a fixed number of digits, written
one behind the other with nothing in between. The text gives the entries back if the
separator is no digit and no name holds a separator with a code behind it.
-/

namespace TaggedText

variable (sep : Char) (digit : Char → Bool) (size : Nat)

/-- So many digits. -/
structure Code (l : List Char) : Prop where
  length : l.length = size
  digits : ∀ c ∈ l, digit c = true

/-- No separator is followed by a code. -/
def Plain (l : List Char) : Prop :=
  ∀ pre code post, Code digit size code → l ≠ pre ++ sep :: (code ++ post)

/-- The entries, one behind the other. -/
def text (l : List (List Char × List Char)) : List Char := l.flatMap fun e => e.1 ++ sep :: e.2

/-- The names are plain, and the codes are codes. -/
def Legible (l : List (List Char × List Char)) : Prop :=
  ∀ e ∈ l, Plain sep digit size e.1 ∧ Code digit size e.2

variable {sep digit size}

/-- A name without a separator is plain. -/
theorem plain_of_not_mem {l : List Char} (h : sep ∉ l) : Plain sep digit size l := by
  rintro pre code post - rfl
  exact h (by simp)

variable (hsep : digit sep = false)
include hsep

/-- A plain name that begins like another entry is its name, or a proper part of it. -/
theorem name_of_append_eq {name name' code code' rest rest' : List Char}
    (hname' : Plain sep digit size name') (hcode : Code digit size code) {more : List Char}
    (hmore : name' = name ++ more) (h : sep :: (code ++ rest) = more ++ sep :: (code' ++ rest')) :
    more = [] := by
  cases more with
  | nil => rfl
  | cons c more =>
      obtain ⟨rfl, hbehind⟩ := List.cons.inj h
      -- the separator behind `more` is not among the digits, so the code ends before it
      rcases List.append_eq_append_iff.mp hbehind with ⟨l, rfl, -⟩ | ⟨l, rfl, hl⟩
      · exact absurd hmore (hname' name code l hcode)
      · cases l with
        | nil =>
            rw [List.append_nil] at hcode
            exact absurd (hmore.trans (by simp)) (hname' name more [] hcode)
        | cons d l =>
            obtain ⟨rfl, -⟩ := List.cons.inj hl
            have hdigit := hcode.digits _ (List.mem_append_right _ List.mem_cons_self)
            rw [hsep] at hdigit
            cases hdigit

/-- The first entry can be told from what follows it. -/
theorem entry_append_inj {name name' code code' rest rest' : List Char}
    (hname : Plain sep digit size name) (hname' : Plain sep digit size name')
    (hcode : Code digit size code) (hcode' : Code digit size code')
    (h : name ++ sep :: (code ++ rest) = name' ++ sep :: (code' ++ rest')) :
    name = name' ∧ code = code' ∧ rest = rest' := by
  have hsame : name = name' := by
    rcases List.append_eq_append_iff.mp h with ⟨more, hmore, h⟩ | ⟨more, hmore, h⟩
    · have hnil := name_of_append_eq hsep hname' hcode hmore h
      simpa [hnil] using hmore.symm
    · have hnil := name_of_append_eq hsep hname hcode' hmore h
      simpa [hnil] using hmore
  subst hsame
  have hbehind := (List.cons.inj (List.append_cancel_left h)).2
  obtain ⟨hcodes, hrest⟩ := List.append_inj hbehind (hcode.length.trans hcode'.length.symm)
  exact ⟨rfl, hcodes, hrest⟩

/-- The text tells the entries. -/
theorem text_inj {l l' : List (List Char × List Char)} (hl : Legible sep digit size l)
    (hl' : Legible sep digit size l') (h : text sep l = text sep l') : l = l' := by
  induction l generalizing l' with
  | nil =>
      cases l' with
      | nil => rfl
      | cons e l' => simp [text] at h
  | cons e l ih =>
      cases l' with
      | nil => simp [text] at h
      | cons e' l' =>
          obtain ⟨he, hl⟩ := List.forall_mem_cons.mp hl
          obtain ⟨he', hl'⟩ := List.forall_mem_cons.mp hl'
          simp only [text, List.flatMap_cons, List.append_assoc, List.cons_append] at h
          obtain ⟨hname, hcode, hrest⟩ := entry_append_inj hsep he.1 he'.1 he.2 he'.2 h
          rw [ih hl hl' hrest, Prod.ext hname hcode]

end TaggedText
