import Mathlib.Data.List.Chain
import Mathlib.Data.List.DropRight

/-!
# Lib — Words

Lists of words with single separators between them. `collapse` makes one out of any list: every
run of other items becomes one separator. A list of words is what splitting at the separators
into nonempty words recognises (`all_splitOn_iff`), it is what is left of any list once it is
collapsed and its ends are trimmed (`worded_trim`), and such a list is left as it is
(`collapse_eq_self`, `trim_eq_self`).
-/

namespace Words

variable {α : Type} (ok : α → Bool) (sep : α)

/-- Replace every run of items that belong to no word by one separator; `gap` inside a run. -/
def collapse (gap : Bool) : List α → List α
  | [] => []
  | c :: rest =>
      if ok c then c :: collapse false rest
      else if gap then collapse true rest
      else sep :: collapse true rest

/-- Items of words and separators, no two separators in a row. -/
structure Joined (l : List α) : Prop where
  items : ∀ c ∈ l, ok c = true ∨ c = sep
  apart : l.IsChain fun a b => a = sep → b ≠ sep

/-- Nonempty words with single separators between them. -/
structure Worded (l : List α) : Prop extends Joined ok sep l where
  head : ∀ c ∈ l.head?, c ≠ sep
  last : ∀ c ∈ l.getLast?, c ≠ sep
  ne_nil : l ≠ []

variable {ok sep} {l : List α}

/-- A nonempty word. -/
def is_word (ok : α → Bool) (word : List α) : Bool := !word.isEmpty && word.all ok

theorem is_word_iff {word : List α} :
    is_word ok word = true ↔ word ≠ [] ∧ word.all ok = true := by
  simp [is_word]

theorem Joined.nil : Joined ok sep [] := ⟨nofun, List.isChain_nil⟩

theorem Joined.cons_iff {c : α} : Joined ok sep (c :: l) ↔
    (ok c = true ∨ c = sep) ∧ (c = sep → ∀ d ∈ l.head?, d ≠ sep) ∧ Joined ok sep l := by
  constructor
  · intro h
    obtain ⟨hc, hl⟩ := List.forall_mem_cons.mp h.items
    obtain ⟨hnext, hl'⟩ := List.isChain_cons.mp h.apart
    exact ⟨hc, fun hsep d hd => hnext d hd hsep, hl, hl'⟩
  · intro ⟨hc, hnext, hl⟩
    exact ⟨List.forall_mem_cons.mpr ⟨hc, hl.items⟩,
      List.isChain_cons.mpr ⟨fun d hd hsep => hnext hsep d hd, hl.apart⟩⟩

theorem Joined.part {part : List α} (h : Joined ok sep l) (hpart : part <:+: l) :
    Joined ok sep part :=
  ⟨fun c hc => h.items c (hpart.subset hc), h.apart.infix hpart⟩

/-! ## Collapsing -/

theorem collapse_joined (hsep : ok sep = false) (gap : Bool) :
    Joined ok sep (collapse ok sep gap l) ∧
      (gap = true → ∀ c ∈ (collapse ok sep gap l).head?, c ≠ sep) := by
  induction l generalizing gap with
  | nil => exact ⟨Joined.nil, fun _ _ hc => nomatch hc⟩
  | cons c rest ih =>
      rw [collapse]
      split
      · next hok =>
          have hne : c ≠ sep := by
            rintro rfl
            simp [hok] at hsep
          refine ⟨Joined.cons_iff.mpr ⟨.inl hok, fun heq => absurd heq hne, (ih false).1⟩, ?_⟩
          intro _ d hd
          obtain rfl : c = d := by simpa using hd
          exact hne
      · split
        · exact ⟨(ih true).1, fun _ => (ih true).2 rfl⟩
        · next hgap =>
            exact ⟨Joined.cons_iff.mpr ⟨.inr rfl, fun _ => (ih true).2 rfl, (ih true).1⟩,
              fun h => absurd h hgap⟩

/-- Separators that are single are left as they are. -/
theorem collapse_eq_self (hsep : ok sep = false) (gap : Bool) (h : Joined ok sep l)
    (hhead : gap = true → ∀ c ∈ l.head?, c ≠ sep) : collapse ok sep gap l = l := by
  induction l generalizing gap with
  | nil => rfl
  | cons c rest ih =>
      obtain ⟨hc, hnext, hrest⟩ := Joined.cons_iff.mp h
      have hword := ih false hrest nofun
      rw [collapse]
      rcases hc with hok | hc
      · rw [if_pos hok, hword]
      · subst hc
        have hgap : gap ≠ true := fun hgap => hhead hgap c rfl rfl
        rw [if_neg (by simp [hsep]), if_neg hgap, ih true hrest fun _ => hnext rfl]

/-! ## Trimming and splitting -/

variable [DecidableEq α]

variable (sep) in
/-- Take the separators off both ends. -/
def trim (l : List α) : List α := (l.dropWhile (· = sep)).rdropWhile (· = sep)

theorem worded_trim (h : Joined ok sep l) (hne : trim sep l ≠ []) : Worded ok sep (trim sep l) := by
  have hstart : trim sep l <+: l.dropWhile (· = sep) := List.rdropWhile_prefix _ _
  have hpart : trim sep l <:+: l := hstart.isInfix.trans (List.dropWhile_suffix _).isInfix
  refine ⟨h.part hpart, ?_, ?_, hne⟩
  · intro c hc
    have hfirst := List.head_dropWhile_not (· = sep) (hstart.ne_nil hne)
    rw [← hstart.head hne] at hfirst
    rw [List.head?_eq_some_head hne, Option.mem_some_iff] at hc
    rw [← hc]
    exact of_decide_eq_false hfirst
  · intro c hc
    have hlast := List.rdropWhile_last_not (· = sep) (l.dropWhile (· = sep)) hne
    rw [List.getLast?_eq_some_getLast hne, Option.mem_some_iff] at hc
    rw [← hc]
    exact fun heq => hlast (decide_eq_true heq)

theorem trim_eq_self (h : Worded ok sep l) : trim sep l = l := by
  have hstart : l.dropWhile (· = sep) = l := by
    rw [List.dropWhile_eq_self_iff]
    intro hpos heq
    have hne : l ≠ [] := h.ne_nil
    refine h.head _ (List.head?_eq_some_head hne) ?_
    rw [List.head_eq_getElem]
    exact of_decide_eq_true heq
  rw [trim, hstart, List.rdropWhile_eq_self_iff]
  intro hne heq
  exact h.last _ (List.getLast?_eq_some_getLast hne) (of_decide_eq_true heq)

/-- The word before the first separator, which may be empty, and the words behind it. -/
theorem splitOn_spec (hsep : ok sep = false) : ∃ word words, l.splitOn sep = word :: words ∧
    (word = [] ↔ ∀ c ∈ l.head?, c = sep) ∧
    (word.all ok = true ∧ words.all (is_word ok) = true ↔
      Joined ok sep l ∧ ∀ c ∈ l.getLast?, c ≠ sep) := by
  induction l with
  | nil => exact ⟨[], [], List.splitOn_nil _, by simp, by simp [Joined.nil]⟩
  | cons c rest ih =>
      obtain ⟨word, words, hsplit, hempty, hwords⟩ := ih
      rw [List.splitOn_cons_eq_if_modifyHead, hsplit]
      by_cases hc : c = sep
      · -- a separator ends an empty word, and what follows has to start with an item of a word
        subst hc
        refine ⟨[], word :: words, by simp, by simp, ?_⟩
        have hlast : (∀ d ∈ (c :: rest).getLast?, d ≠ c) ↔
            rest ≠ [] ∧ ∀ d ∈ rest.getLast?, d ≠ c := by
          cases rest with
          | nil => simp
          | cons d rest => simp [List.getLast?_cons_cons]
        have hfirst : word ≠ [] ↔ rest ≠ [] ∧ ∀ d ∈ rest.head?, d ≠ c := by
          rw [ne_eq, hempty]
          cases rest <;> simp
        rw [Joined.cons_iff, hlast, List.all_cons, Bool.and_eq_true, is_word_iff, hfirst]
        simp only [List.all_nil, true_and, or_true]
        tauto
      · refine ⟨c :: word, words, by simp [hc], by simp [hc], ?_⟩
        have hlast : (∀ d ∈ (c :: rest).getLast?, d ≠ sep) ↔ ∀ d ∈ rest.getLast?, d ≠ sep := by
          cases rest with
          | nil => simpa using hc
          | cons d rest => simp [List.getLast?_cons_cons]
        rw [Joined.cons_iff, hlast, List.all_cons, Bool.and_eq_true]
        simp only [hc, or_false, false_implies, true_and]
        tauto

/-- Splitting at the separators recognises the lists of words. -/
theorem all_splitOn_iff (hsep : ok sep = false) :
    (l.splitOn sep).all (is_word ok) = true ↔ Worded ok sep l := by
  obtain ⟨word, words, hsplit, hempty, hwords⟩ := splitOn_spec (l := l) hsep
  have hfirst : word ≠ [] ↔ l ≠ [] ∧ ∀ c ∈ l.head?, c ≠ sep := by
    rw [ne_eq, hempty]
    cases l <;> simp
  rw [hsplit, List.all_cons, Bool.and_eq_true, is_word_iff, hfirst]
  constructor
  · intro ⟨⟨⟨hne, hhead⟩, hword⟩, hrest⟩
    obtain ⟨hjoined, hlast⟩ := hwords.mp ⟨hword, hrest⟩
    exact ⟨hjoined, hhead, hlast, hne⟩
  · intro h
    obtain ⟨hword, hrest⟩ := hwords.mpr ⟨h.toJoined, h.last⟩
    exact ⟨⟨⟨h.ne_nil, h.head⟩, hword⟩, hrest⟩

end Words
