import EmergentFlow.Ui.Widgets

/-!
# Ui — FormAgreement

When the form and the backend judge a value alike. The two read the same
hints, but the form by the widget and the backend by the type of the value
that arrives. They agree on lists; elsewhere the condition is on the value
and the hints that the two read differently.
-/

namespace EmergentFlow.Widgets

/-! ## The form finds nothing -/

theorem orElse_eq_none {α : Type} {a b : Option α} : (a <|> b) = none ↔ a = none ∧ b = none := by
  cases a <;> simp

theorem boundsError_eq_none {α : Type} [LT α] [DecidableLT α] {min max : Option α} {n : α}
    {below above : α → FormError} :
    boundsError min max n below above = none ↔ (∀ m ∈ min, ¬ n < m) ∧ ∀ m ∈ max, ¬ m < n := by
  rw [boundsError, orElse_eq_none]
  simp only [Option.map_eq_none_iff, Option.filter_eq_none_iff, decide_eq_true_eq, Option.mem_def]

theorem includes_iff {choices : List Json} {s : String} :
    includes choices s = true ↔ .str s ∈ choices := by
  rw [includes, List.any_eq_true]
  constructor
  · rintro ⟨choice, hmem, hs⟩
    cases choice with
    | str b =>
        simp only [Json.str?, Option.some.injEq, decide_eq_true_eq] at hs
        exact hs ▸ hmem
    | _ => simp [Json.str?] at hs
  · intro hmem
    exact ⟨_, hmem, by simp [Json.str?]⟩

/-- A text has the pattern somewhere in it, as far as the form tests it. -/
def Found (regex : Regex) (hints : ValidationHints) (s : String) : Prop :=
  ∀ p ∈ hints.pattern, p ≠ "" → ∀ m ∈ regex p, search m s.toList = true

/-- A text that matches as a whole matches somewhere. -/
theorem found_of_matched {regex : Regex} {hints : ValidationHints} {s : String}
    (h : hints.Matched regex s) : Found regex hints s := by
  intro p hp _ m hm
  obtain ⟨m', hm', hfull⟩ := h p hp
  rw [Option.mem_def, hm'] at hm
  cases hm
  exact search_of_fullmatch hfull

theorem patternError_eq_none {regex : Regex} {hints : ValidationHints} {s : String} :
    patternError regex hints s = none ↔ Found regex hints s := by
  rw [patternError, Found]
  cases hints.pattern with
  | none => simp
  | some p =>
      by_cases hp : p = ""
      · simp [hp]
      · cases hm : regex p with
        | none => simp [hp, hm]
        | some m => cases hs : search m s.toList <;> simp [hp, hm, hs]

theorem choicesError_eq_none {hints : ValidationHints} {s : String} :
    choicesError hints s = none ↔ hints.Chosen s := by
  rw [choicesError, Option.map_eq_none_iff, Option.filter_eq_none_iff, ValidationHints.Chosen]
  simp [includes_iff]

theorem textError_eq_none {regex : Regex} {hints : ValidationHints} {s : String} :
    textError regex hints s = none ↔
      hints.InLength (utf16Length s) ∧ Found regex hints s ∧ hints.Chosen s := by
  rw [textError, orElse_eq_none, orElse_eq_none, boundsError_eq_none, patternError_eq_none,
    choicesError_eq_none]
  simp only [not_lt, ValidationHints.InLength, and_assoc]

theorem itemsError_eq_none {hints : ValidationHints} {value : JsValue} :
    itemsError hints value = none ↔ hints.InLength (arrayItems value).length := by
  rw [itemsError, boundsError_eq_none]
  simp only [not_lt, ValidationHints.InLength]

theorem numberError_finite {host : Host} {hints : ValidationHints} {x : Rat} :
    numberError host hints (.num (.finite x)) = none ↔ hints.InBounds x := by
  rw [numberError]
  simp only [Host.number, boundsError_eq_none, Rat.not_lt, ValidationHints.InBounds]

theorem multiselectError_arr {host : Host} {hints : ValidationHints} {items : List JsValue} :
    multiselectError host hints (.arr items) = none ↔
      hints.InLength items.length ∧
        ∀ item ∈ items, Json.str (host.text item) ∈ hints.choices.getD [] := by
  rw [multiselectError, orElse_eq_none, itemsError_eq_none]
  simp [arrayItems, includes_iff]

theorem validateValue_of_filled {regex : Regex} {host : Host} {param : CatalogParam}
    {value : JsValue} (h : isEmptyValue value = false) :
    validateValue regex host param value = filledError regex host param value := by
  simp [validateValue, h]

/-! ## Values on the way -/

@[simp] theorem received_arr (host : Host) (items : List JsValue) :
    received host (.arr items) = .arr (items.map (received host)) := by
  rw [received]
  exact congrArg Json.arr List.attach_map_val

@[simp] theorem received_str (host : Host) (s : String) : received host (.str s) = .str s := by
  rw [received]

theorem received_finite (host : Host) (x : Rat) :
    received host (.num (.finite x)) = number_json (host.wire x) := by
  rw [received]

theorem number_json_spec (x : Rat) :
    py_number (number_json x) = some (.finite x) ∧ (∀ b, number_json x ≠ .bool b) ∧
      py_len (number_json x) = none := by
  rw [number_json]
  by_cases h : x.den = 1
  · rw [if_pos h, py_number, Rat.coe_int_num_of_den_eq_one h]
    exact ⟨rfl, nofun, rfl⟩
  · rw [if_neg h]
    exact ⟨rfl, nofun, rfl⟩

/-- The items of a parsed list are texts and numbers. -/
theorem parseItem_spec (host : Host) (itemType : Option ItemType) (s : String) :
    (∃ t, parseItem host itemType s = .str t) ∨ ∃ n, parseItem host itemType s = .num n := by
  cases itemType with
  | none => exact .inl ⟨s, rfl⟩
  | some itemType =>
      cases hn : host.Number s with
      | none => exact .inl ⟨s, by simp [parseItem, hn]⟩
      | some n => exact .inr ⟨_, by rw [parseItem, hn]⟩

/-! ## Widgets and choices -/

/-- The widgets of a param that is neither hinted nor given choices. -/
theorem tokenWidget_mem (typeToken : String) :
    tokenWidget typeToken ∈ [WidgetKind.checkbox, .number, .json, .list, .text] := by
  rw [tokenWidget]
  by_cases h1 : typeToken = "bool"
  · rw [if_pos h1]
    decide
  · rw [if_neg h1]
    by_cases h2 : typeToken = "int" ∨ typeToken = "float"
    · rw [if_pos h2]
      decide
    · rw [if_neg h2]
      by_cases h3 : isDictType typeToken ∨ isListOfDictType typeToken
      · rw [if_pos h3]
        decide
      · rw [if_neg h3]
        by_cases h4 : isListType typeToken
        · rw [if_pos h4]
          decide
        · rw [if_neg h4]
          decide

/-- The widgets that a hint can ask for by name. -/
theorem hintedWidget_mem {widget : Option String} {kind : WidgetKind}
    (h : hintedWidget widget = some kind) :
    kind ∈ [WidgetKind.sql, .code, .markdown, .filepath, .connection, .column] := by
  unfold hintedWidget at h
  split at h <;> first | cases h; decide | cases h

/-- Where a widget comes from. -/
theorem widgetForParam_cases (param : CatalogParam) :
    widgetForParam param ∈ [WidgetKind.sql, .code, .markdown, .filepath, .connection, .column] ∨
      ((∃ choices, param.hint.choices = some choices) ∧
        widgetForParam param ∈ [WidgetKind.multiselect, .select]) ∨
      (param.hint.choices = none ∧
        widgetForParam param ∈ [WidgetKind.checkbox, .number, .json, .list, .text]) := by
  rw [widgetForParam]
  cases hw : hintedWidget param.hint.widget with
  | some kind => exact .inl (hintedWidget_mem hw)
  | none =>
      cases hc : param.hint.choices with
      | none => exact .inr (.inr ⟨rfl, tokenWidget_mem _⟩)
      | some choices =>
          refine .inr (.inl ⟨⟨choices, rfl⟩, ?_⟩)
          cases isListType param.type_token with
          | true => exact List.mem_cons_self
          | false => exact List.mem_cons_of_mem _ List.mem_cons_self

/-- Number, list and JSON widgets edit params without choices. -/
theorem choices_of_kind {param : CatalogParam} {kind : WidgetKind}
    (h : widgetForParam param = kind) (hkind : kind ∈ [WidgetKind.number, .list, .json]) :
    param.hint.choices = none := by
  have hcases := widgetForParam_cases param
  rw [h] at hcases
  rcases hcases with hnamed | ⟨-, hchosen⟩ | ⟨hnone, -⟩
  · cases kind <;> simp at hkind hnamed
  · cases kind <;> simp at hkind hchosen
  · exact hnone

/-- A multiselect edits a param with choices. -/
theorem choices_of_multiselect {param : CatalogParam} (h : widgetForParam param = .multiselect) :
    ∃ choices, param.hint.choices = some choices := by
  have hcases := widgetForParam_cases param
  rw [h] at hcases
  rcases hcases with hnamed | ⟨hchoices, -⟩ | ⟨-, htoken⟩
  · simp at hnamed
  · exact hchoices
  · simp at htoken

/-! ## Where the two agree -/

section Agreement

variable (regex : Regex) (host : Host) (hints : ValidationHints)

/-- Numbers: finite, and the bounds treat the number and what is read from
the saved document alike. -/
def NumberAgrees : JsValue → Prop
  | .num (.finite x) => hints.InBounds x ↔ hints.InBounds (host.wire x)
  | _ => False

/-- Texts: of one that is a choice, a length in code units that fits and a
match somewhere come with a length in characters that fits and a match of the
whole; and the other length fits too. -/
def TextAgrees (s : String) : Prop :=
  hints.Chosen s →
    (hints.InLength (utf16Length s) → Found regex hints s →
      hints.InLength s.toList.length ∧ hints.Matched regex s) ∧
    (hints.InLength s.toList.length → hints.Matched regex s → hints.InLength (utf16Length s))

/-- A list in a column widget: the form takes the text for an empty list. -/
def ColumnAgrees (s : String) : Prop :=
  hints.InLength 0 ↔
    hints.Chosen s ∧ hints.InLength s.toList.length ∧ hints.Matched regex s

/-- Several choices: of a list of a fitting length whose texts are choices,
the numbers are choices as texts exactly when they are as values. -/
def MultiselectAgrees (choices : List Json) : JsValue → Prop
  | .arr items =>
      hints.InLength items.length → (∀ s, .str s ∈ items → Json.str s ∈ choices) →
        ((∀ n, .num n ∈ items → Json.str (host.number_text n) ∈ choices) ↔
          ∀ n, .num n ∈ items → py_in (received host (.num n)) choices = true)
  | _ => False

/-- JSON: the form asks for an object, or for an array, and for nothing else;
the backend asks a text, a list or a number for its bounds, and for nothing
else. -/
def JsonAgrees (typeToken : String) : JsValue → Prop
  | .obj _ => isListOfDictType typeToken = false
  | .arr items => isListOfDictType typeToken = true ↔ hints.InLength items.length
  | .str s => ¬ (hints.InLength s.toList.length ∧ hints.Matched regex s)
  | .num (.finite x) => ¬ hints.InBounds (host.wire x)
  | _ => False

end Agreement

/-- The form and the backend judge a value of a param alike. -/
def FormAgrees (regex : Regex) (host : Host) (param : CatalogParam) (value : JsValue) : Prop :=
  match widgetForParam param with
  | .number => NumberAgrees host param.hint value
  | .multiselect => MultiselectAgrees host param.hint (param.hint.choices.getD []) value
  | .list => True
  | .column =>
      if isListType param.type_token then ColumnAgrees regex param.hint (host.text value)
      else TextAgrees regex param.hint (host.text value)
  | .json => JsonAgrees regex host param.hint param.type_token value
  | _ => TextAgrees regex param.hint (host.text value)

/-! ## One widget after another -/

section Widget

variable {regex : Regex} {host : Host} {hints : ValidationHints} {name : String}

theorem text_agrees_iff {s : String} :
    (textError regex hints s = none ↔ check_hints regex name (.str s) (some hints) = .ok []) ↔
      TextAgrees regex hints s := by
  rw [textError_eq_none, check_hints_str, TextAgrees]
  have hfound : hints.Matched regex s → Found regex hints s := found_of_matched
  tauto

theorem column_agrees_iff {s : String} :
    (itemsError hints (.str s) = none ↔ check_hints regex name (.str s) (some hints) = .ok []) ↔
      ColumnAgrees regex hints s := by
  rw [itemsError_eq_none, check_hints_str]
  rfl

theorem number_agrees_iff {n : JsNumber} (hchoices : hints.choices = none) :
    (numberError host hints (.num n) = none ↔
        check_hints regex name (received host (.num n)) (some hints) = .ok []) ↔
      NumberAgrees host hints (.num n) := by
  cases n with
  | finite x =>
      obtain ⟨hnumber, hbool, hlen⟩ := number_json_spec (host.wire x)
      rw [numberError_finite, received_finite, check_hints_other hchoices hlen,
        bound_findings_eq_nil hbool hnumber]
      rfl
  | infinite negative =>
      have herror : numberError host hints (.num (.infinite negative)) ≠ none := nofun
      have hfine : check_hints regex name (received host (.num (.infinite negative)))
          (some hints) = .ok [] := by
        rw [received, check_hints_other hchoices rfl]
        rfl
      exact ⟨fun h => herror (h.mpr hfine), False.elim⟩

theorem list_agrees {items : List JsValue} (hchoices : hints.choices = none) :
    itemsError hints (.arr items) = none ↔
      check_hints regex name (received host (.arr items)) (some hints) = .ok [] := by
  rw [itemsError_eq_none, received_arr, check_hints_arr, hchoices, List.length_map]
  simp [arrayItems]

theorem multiselect_agrees_iff {items : List JsValue} {choices : List Json}
    (hchoices : hints.choices = some choices)
    (hitems : ∀ item ∈ items, (∃ s, item = .str s) ∨ ∃ n, item = .num n) :
    (multiselectError host hints (.arr items) = none ↔
        check_hints regex name (received host (.arr items)) (some hints) = .ok []) ↔
      MultiselectAgrees host hints choices (.arr items) := by
  rw [multiselectError_arr, received_arr, check_hints_arr, hchoices, List.length_map]
  simp only [Option.mem_some_iff, forall_eq', Option.getD_some, List.forall_mem_map]
  -- both ask the same of the texts among the items
  have hform : (∀ item ∈ items, Json.str (host.text item) ∈ choices) ↔
      (∀ s, .str s ∈ items → Json.str s ∈ choices) ∧
        ∀ n, .num n ∈ items → Json.str (host.number_text n) ∈ choices := by
    constructor
    · exact fun h => ⟨fun s hs => h _ hs, fun n hn => h _ hn⟩
    · rintro ⟨hstr, hnum⟩ item hitem
      rcases hitems item hitem with ⟨s, rfl⟩ | ⟨n, rfl⟩
      · exact hstr s hitem
      · exact hnum n hitem
  have hback : (∀ item ∈ items, py_in (received host item) choices = true) ↔
      (∀ s, .str s ∈ items → Json.str s ∈ choices) ∧
        ∀ n, .num n ∈ items → py_in (received host (.num n)) choices = true := by
    constructor
    · intro h
      refine ⟨fun s hs => ?_, fun n hn => h _ hn⟩
      have := h _ hs
      rwa [received_str, py_in_str] at this
    · rintro ⟨hstr, hnum⟩ item hitem
      rcases hitems item hitem with ⟨s, rfl⟩ | ⟨n, rfl⟩
      · rw [received_str, py_in_str]
        exact hstr s hitem
      · exact hnum n hitem
  rw [hform, hback, MultiselectAgrees]
  tauto

theorem json_agrees_iff {typeToken : String} {value : JsValue} (hchoices : hints.choices = none)
    (hfilled : isEmptyValue value = false) :
    (jsonError typeToken value = none ↔
        check_hints regex name (received host value) (some hints) = .ok []) ↔
      JsonAgrees regex host hints typeToken value := by
  cases value with
  | null => cases hfilled
  | bool b =>
      have herror : jsonError typeToken (.bool b) ≠ none := by
        cases hl : isListOfDictType typeToken <;> simp [jsonError, hl]
      have hfine : check_hints regex name (received host (.bool b)) (some hints) = .ok [] := by
        rw [received, check_hints_other hchoices rfl]
        rfl
      exact ⟨fun h => herror (h.mpr hfine), False.elim⟩
  | num n =>
      have herror : jsonError typeToken (.num n) ≠ none := by
        cases hl : isListOfDictType typeToken <;> simp [jsonError, hl]
      cases n with
      | finite x =>
          -- a finite number is checked against its bounds, an infinite one arrives as null
          obtain ⟨hnumber, hbool, hlen⟩ := number_json_spec (host.wire x)
          rw [received_finite, check_hints_other hchoices hlen, bound_findings_eq_nil hbool hnumber,
            iff_false_left herror]
          rfl
      | infinite negative =>
          have hfine : check_hints regex name (received host (.num (.infinite negative)))
              (some hints) = .ok [] := by
            rw [received, check_hints_other hchoices rfl]
            rfl
          exact ⟨fun h => herror (h.mpr hfine), False.elim⟩
  | str s =>
      have herror : jsonError typeToken (.str s) ≠ none := by
        intro hnone
        cases hnone
      have hchosen : hints.Chosen s := by
        intro choices hc
        rw [hchoices] at hc
        cases hc
      rw [received_str, check_hints_str, iff_false_left herror, JsonAgrees]
      tauto
  | arr items =>
      rw [received_arr, check_hints_arr, hchoices, List.length_map, JsonAgrees]
      cases hl : isListOfDictType typeToken <;> simp [jsonError, hl]
  | obj members =>
      have hfine : check_hints regex name (received host (.obj members)) (some hints) = .ok [] := by
        rw [received, check_hints_other hchoices rfl]
        rfl
      rw [iff_true_right hfine, JsonAgrees]
      cases hl : isListOfDictType typeToken <;> simp [jsonError, hl]

end Widget

/-! ## Every param and every input -/

/-- A filled number input is a number. -/
theorem parseValue_number {host : Host} {param : CatalogParam} {raw : String}
    (hkind : widgetForParam param = .number)
    (hfilled : isEmptyValue (parseValue host param raw) = false) :
    ∃ n, parseValue host param raw = .num n := by
  revert hfilled
  rw [parseValue, hkind]
  by_cases hblank : js_trim raw.toList = []
  · simp only [if_pos hblank]
    exact nofun
  · simp only [if_neg hblank]
    cases host.Number raw with
    | none => exact nofun
    | some n => exact fun _ => ⟨n, rfl⟩

/-- The form and the backend judge what is entered alike exactly when
`FormAgrees` holds of it. -/
theorem form_agrees_iff (regex : Regex) (host : Host) (param : CatalogParam) (raw : String)
    (hfilled : isEmptyValue (parseValue host param raw) = false) :
    (validateValue regex host param (parseValue host param raw) = none ↔
        check_hints regex param.name (received host (parseValue host param raw)) param.hints =
          .ok []) ↔
      FormAgrees regex host param (parseValue host param raw) := by
  rw [validateValue_of_filled hfilled, check_hints_getD, ← CatalogParam.hint, filledError,
    FormAgrees]
  cases hkind : widgetForParam param with
  | number =>
      obtain ⟨n, hn⟩ := parseValue_number hkind hfilled
      simp only [hn]
      exact number_agrees_iff (choices_of_kind hkind (by decide))
  | multiselect =>
      have hvalue : parseValue host param raw =
          .arr ((listItems raw).map (parseItem host (listItemType param.type_token))) := by
        rw [parseValue, hkind]
      simp only [hvalue]
      obtain ⟨choices, hchoices⟩ := choices_of_multiselect hkind
      rw [hchoices, Option.getD_some]
      apply multiselect_agrees_iff hchoices
      intro item hitem
      obtain ⟨s, -, rfl⟩ := List.mem_map.mp hitem
      exact parseItem_spec ..
  | list =>
      have hvalue : parseValue host param raw =
          .arr ((listItems raw).map (parseItem host (listItemType param.type_token))) := by
        rw [parseValue, hkind]
      simp only [hvalue]
      exact iff_true_intro (list_agrees (choices_of_kind hkind (by decide)))
  | json => exact json_agrees_iff (choices_of_kind hkind (by decide)) hfilled
  | column =>
      have hvalue : parseValue host param raw = .str raw := by rw [parseValue, hkind]
      simp only [hvalue, received_str, Host.text]
      cases isListType param.type_token with
      | true => exact column_agrees_iff
      | false => exact text_agrees_iff
  | _ =>
      have hvalue : parseValue host param raw = .str raw := by rw [parseValue, hkind]
      simp only [hvalue, received_str, Host.text]
      exact text_agrees_iff

/-- A host of which no number and no document is asked. -/
def text_host : Host where
  Number := fun _ => none
  parse := fun _ => none
  number_text := fun _ => ""
  object_text := fun _ => ""
  wire := id

/-- `[a-z]+`; of no other pattern is asked. -/
def lower_run : Regex := fun p =>
  if p = "[a-z]+" then
    some fun text i j => i < j && ((text.take j).drop i).all fun c => 'a' ≤ c && c ≤ 'z'
  else none

/-- An alias of lower-case letters. -/
def alias_param : CatalogParam where
  name := "alias"
  type_token := "str"
  hints := some { pattern := some "[a-z]+" }

/-- `ab` passes both. -/
theorem alias_agrees : isEmptyValue (parseValue text_host alias_param "ab") = false ∧
    ((validateValue lower_run text_host alias_param (parseValue text_host alias_param "ab") = none ↔
        check_hints lower_run alias_param.name
          (received text_host (parseValue text_host alias_param "ab")) alias_param.hints = .ok []) ↔
      FormAgrees lower_run text_host alias_param (parseValue text_host alias_param "ab")) :=
  ⟨by decide, form_agrees_iff lower_run text_host alias_param "ab" (by decide)⟩

/-- `ab1` has letters in it, so the form accepts it. -/
theorem unanchored_pattern_accepts :
    ¬ ∀ raw, isEmptyValue (parseValue text_host alias_param raw) = false →
      (validateValue lower_run text_host alias_param (parseValue text_host alias_param raw) = none ↔
        check_hints lower_run alias_param.name
          (received text_host (parseValue text_host alias_param raw)) alias_param.hints =
            .ok []) := by
  intro h
  have hform : validateValue lower_run text_host alias_param
      (parseValue text_host alias_param "ab1") = none := by rfl
  have hvalue : parseValue text_host alias_param "ab1" = .str "ab1" := by rfl
  have hcheck := (h "ab1" (by decide)).mp hform
  rw [hvalue, received_str, alias_param, check_hints_str] at hcheck
  obtain ⟨m, hm, hfull⟩ := hcheck.2.2 "[a-z]+" rfl
  cases hm
  revert hfull
  decide

end EmergentFlow.Widgets
