import Mathlib.Tactic.Linarith
import EmergentFlow.Ui.FormAgreement
import EmergentFlow.Ui.JsonText

/-!
# Ui — FormRoundTrip

A stored value shown in the form and read back (`formatValue` and `parseValue` of
`ui/src/inspector/widgets.ts`). `Kept` says of which values the form keeps all: it asks
for the widget, and for each item of a list.
-/

namespace EmergentFlow.Widgets

open JsonText (Numerals StoredItems stringify isNumeral numeralChar)

/-! ## Showing a value -/

/-- An item of `value.join(", ")`. -/
def joinText (host : Host) : JsValue → String
  | .null => ""
  | item => host.text item

def formatValue (host : Host) (param : CatalogParam) (value : JsValue) : String :=
  match value with
  | .null => ""
  | .arr items =>
      if widgetForParam param = .json then stringify host value
      else String.intercalate ", " (items.map (joinText host))
  | .obj _ => if widgetForParam param = .json then stringify host value else host.text value
  | value => host.text value

/-! ## What is kept -/

/-- An item that the commas leave whole. -/
def Plain (s : String) : Prop :=
  s ≠ "" ∧ js_trim s.toList = s.toList ∧ ',' ∉ s.toList

instance (s : String) : Decidable (Plain s) := inferInstanceAs (Decidable (_ ∧ _ ∧ _))

/-- An item of a list that comes back as itself. -/
def KeptItem (host : Host) (itemType : Option ItemType) (item : JsValue) : Prop :=
  match itemType, item with
  | none, .str s => Plain s
  | some _, .str s => Plain s ∧ host.Number s = none
  | some .int, .num n => n.round = n
  | some .float, .num _ => True
  | _, _ => False

/-- The values that the widget of a param keeps: numbers, lists of such items, documents,
and elsewhere strings only. -/
def Kept (host : Host) (param : CatalogParam) (value : JsValue) : Prop :=
  match widgetForParam param with
  | .number => ∃ n, value = .num n
  | .list | .multiselect => ∃ items, value = .arr items ∧
      ∀ item ∈ items, KeptItem host (listItemType param.type_token) item
  | .json => True
  | _ => ∃ s, value = .str s

def ConformingItem (typeToken : String) (item : JsValue) : Prop :=
  if typeToken = "list[int]" then ∃ i : Int, item = .num (.finite i)
  else if typeToken = "list[float]" then ∃ n, item = .num n
  else if typeToken = "list[str]" then ∃ s, item = .str s
  else if isListOfDictType typeToken then ∃ members, item = .obj members
  else True

/-- A value of the type that a token names; a token that is not known takes every value. -/
def Conforms (typeToken : String) (value : JsValue) : Prop :=
  if typeToken = "bool" then ∃ b, value = .bool b
  else if typeToken = "int" then ∃ i : Int, value = .num (.finite i)
  else if typeToken = "float" then ∃ n, value = .num n
  else if typeToken = "str" then ∃ s, value = .str s
  else if isDictType typeToken then ∃ members, value = .obj members
  else if isListType typeToken ∨ isListOfDictType typeToken then
    ∃ items, value = .arr items ∧ ∀ item ∈ items, ConformingItem typeToken item
  else True

/-- The host's JSON and its numbers. -/
structure Standard (host : Host) (double : JsNumber → Prop) : Prop
    extends Numerals host double where
  parse : host.parse = JsonText.parse host.Number

theorem JsNumber.round_int (i : Int) : (JsNumber.finite i).round = .finite i := by
  have hfloor : ((i : Rat) + 1 / 2).floor = i := by
    apply le_antisymm
    · apply Int.lt_add_one_iff.mp
      rw [Rat.floor_lt_iff]
      push_cast
      linarith
    · rw [Rat.le_floor_iff]
      linarith
  rw [JsNumber.round, hfloor]

theorem JsNumber.round_round (n : JsNumber) : n.round.round = n.round := by
  cases n with
  | finite x => exact JsNumber.round_int _
  | infinite negative => rfl

/-! ## Items between commas -/

theorem not_mem_of_mem_splitOn {a : Char} {l piece : List Char} (h : piece ∈ l.splitOn a) :
    a ∉ piece := by
  induction l generalizing piece with
  | nil =>
      rw [List.splitOn_nil, List.mem_singleton] at h
      exact h ▸ List.not_mem_nil
  | cons x l ih =>
      rw [List.splitOn_cons_eq_if_modifyHead] at h
      split at h
      · rcases List.mem_cons.mp h with rfl | h
        · exact List.not_mem_nil
        · exact ih h
      · next hx =>
          cases hsplit : l.splitOn a with
          | nil =>
              rw [hsplit] at h
              cases h
          | cons first rest =>
              rw [hsplit] at h ih
              rcases List.mem_cons.mp h with rfl | h
              · rw [List.mem_cons, not_or]
                exact ⟨fun heq => hx (beq_iff_eq.mpr heq.symm), ih List.mem_cons_self⟩
              · exact ih (List.mem_cons_of_mem _ h)

theorem js_trim_js_trim (l : List Char) : js_trim (js_trim l) = js_trim l := by
  have hdrop : (js_trim l).dropWhile is_js_space = js_trim l := by
    rw [List.dropWhile_eq_self_iff]
    intro hlength hspace
    have hstart : js_trim l <+: l.dropWhile is_js_space := List.rdropWhile_prefix is_js_space _
    have hpos := Nat.lt_of_lt_of_le hlength hstart.length_le
    rw [hstart.getElem hlength] at hspace
    exact List.dropWhile_get_zero_not is_js_space l hpos hspace
  rw [js_trim, hdrop]
  exact List.rdropWhile_idempotent is_js_space _

theorem plain_of_listItems {raw s : String} (h : s ∈ listItems raw) : Plain s := by
  obtain ⟨t, ht, rfl⟩ := List.mem_map.mp h
  obtain ⟨hmem, hne⟩ := List.mem_filter.mp ht
  obtain ⟨piece, hpiece, rfl⟩ := List.mem_map.mp hmem
  refine ⟨?_, ?_, ?_⟩
  · intro hempty
    rw [← String.toList_inj, String.toList_ofList, String.toList_empty] at hempty
    exact of_decide_eq_true hne hempty
  · rw [String.toList_ofList, js_trim_js_trim]
  · rw [String.toList_ofList]
    intro hcomma
    have hsublist : (js_trim piece).Sublist piece :=
      (List.rdropWhile_prefix is_js_space _).sublist.trans (List.dropWhile_suffix _).sublist
    exact not_mem_of_mem_splitOn hpiece (hsublist.subset hcomma)

/-- The space after a comma goes to the next item. -/
theorem intercalate_comma_space (x : List Char) (xs : List (List Char)) :
    [',', ' '].intercalate (x :: xs) = [','].intercalate (x :: xs.map (' ' :: ·)) := by
  induction xs generalizing x with
  | nil => rfl
  | cons y ys ih =>
      have hspace : [','].intercalate ((' ' :: y) :: ys.map (' ' :: ·)) =
          ' ' :: [','].intercalate (y :: ys.map (' ' :: ·)) := by
        cases ys with
        | nil => rfl
        | cons z zs =>
            rw [List.map_cons, List.intercalate_cons_cons, List.intercalate_cons_cons]
            rfl
      rw [List.intercalate_cons_cons, ih, List.map_cons, List.intercalate_cons_cons, hspace]
      simp

theorem js_trim_space (l : List Char) : js_trim (' ' :: l) = js_trim l := by
  rw [js_trim, List.dropWhile_cons_of_pos (by decide), js_trim]

/-- Plain items come back from their joined text. -/
theorem listItems_join {items : List String} (h : ∀ s ∈ items, Plain s) :
    listItems (String.intercalate ", " items) = items := by
  cases items with
  | nil => rfl
  | cons s rest =>
      have hsplit : (String.intercalate ", " (s :: rest)).toList.splitOn ',' =
          s.toList :: (rest.map String.toList).map (' ' :: ·) := by
        have hcomma : ∀ l ∈ s.toList :: (rest.map String.toList).map (' ' :: ·), ',' ∉ l := by
          intro l hl
          rcases List.mem_cons.mp hl with heq | hl
          · rw [heq]
            exact (h s List.mem_cons_self).2.2
          · obtain ⟨_, hrest, rfl⟩ := List.mem_map.mp hl
            obtain ⟨t, ht, rfl⟩ := List.mem_map.mp hrest
            have hcomma := (h t (List.mem_cons_of_mem _ ht)).2.2
            simpa using hcomma
        rw [String.toList_intercalate, List.map_cons]
        have hjoin := intercalate_comma_space s.toList (rest.map String.toList)
        rw [show ", ".toList = [',', ' '] from rfl, hjoin]
        exact List.splitOn_intercalate ',' hcomma (List.cons_ne_nil _ _)
      -- the blank after each comma goes with the trim, and no item has any of its own
      have htrim : (s.toList :: (rest.map String.toList).map (' ' :: ·)).map js_trim =
          (s :: rest).map String.toList := by
        rw [List.map_cons, List.map_map, List.map_map, List.map_cons, (h s List.mem_cons_self).2.1]
        congr 1
        apply List.map_congr_left
        intro t ht
        simp only [Function.comp_apply, js_trim_space]
        exact (h t (List.mem_cons_of_mem _ ht)).2.1
      have hfilter : ((s :: rest).map String.toList).filter (· ≠ []) =
          (s :: rest).map String.toList := by
        rw [List.filter_eq_self]
        intro l hl
        obtain ⟨t, ht, rfl⟩ := List.mem_map.mp hl
        rw [decide_eq_true_eq, ne_eq, ← String.toList_empty, String.toList_inj]
        exact (h t ht).1
      rw [listItems, hsplit, htrim, hfilter, List.map_map]
      exact List.map_id'' (fun _ => String.ofList_toList) _

/-! ## Numbers between commas -/

theorem numeralChar_spec {c : Char} (h : numeralChar c = true) :
    is_js_space c = false ∧ c ≠ ',' := by
  rcases Bool.or_eq_true_iff.mp h with hdigit | hsign
  · have hlow : 48 ≤ c.toNat := by
      simp only [Char.isDigit, Bool.and_eq_true, decide_eq_true_eq] at hdigit
      exact hdigit.1
    have hhigh : c.toNat ≤ 57 := by
      simp only [Char.isDigit, Bool.and_eq_true, decide_eq_true_eq] at hdigit
      exact hdigit.2
    refine ⟨?_, ?_⟩
    · simp only [is_js_space, Bool.or_eq_false_iff, decide_eq_false_iff_not, List.mem_cons,
        List.not_mem_nil, Bool.and_eq_false_iff, or_false]
      omega
    · rintro rfl
      revert hlow
      decide
  · have hmem := List.contains_iff_mem.mp hsign
    simp only [List.mem_cons, List.not_mem_nil, or_false] at hmem
    rcases hmem with rfl | rfl | rfl | rfl | rfl <;> decide

theorem plain_numeral {s : String} (h : isNumeral s.toList = true) : Plain s := by
  have hall : ∀ c ∈ s.toList, numeralChar c = true := by
    unfold isNumeral at h
    exact List.all_eq_true.mp (Bool.and_eq_true_iff.mp h).1
  obtain ⟨c, rest, hs, -⟩ := JsonText.isNumeral_head h
  refine ⟨?_, ?_, fun hcomma => (numeralChar_spec (hall _ hcomma)).2 rfl⟩
  · rintro rfl
    cases hs
  · have hspace : ∀ c ∈ s.toList, ¬ is_js_space c = true := fun c hc => by
      rw [(numeralChar_spec (hall c hc)).1]
      exact Bool.false_ne_true
    have hdrop : s.toList.dropWhile is_js_space = s.toList :=
      List.dropWhile_eq_self_iff.mpr fun hpos => hspace _ (List.getElem_mem hpos)
    rw [js_trim, hdrop, List.rdropWhile_eq_self_iff]
    exact fun hne => hspace _ (List.getLast_mem hne)

/-! ## Lists -/

section Items

variable {host : Host} {double : JsNumber → Prop} {itemType : Option ItemType}

/-- What is read between commas is kept from then on. -/
theorem keptItem_parseItem {s : String} (h : Plain s) :
    KeptItem host itemType (parseItem host itemType s) := by
  cases itemType with
  | none => exact h
  | some itemType =>
      rw [parseItem]
      cases hn : host.Number s with
      | none => cases itemType <;> exact ⟨h, hn⟩
      | some n =>
          cases itemType with
          | int => exact JsNumber.round_round n
          | float => exact trivial

theorem parseItem_joinText (hhost : Standard host double) {item : JsValue}
    (hstored : JsonText.Stored double item) (h : KeptItem host itemType item) :
    Plain (joinText host item) ∧ parseItem host itemType (joinText host item) = item := by
  cases item with
  | str s =>
      cases itemType with
      | none => exact ⟨h, rfl⟩
      | some itemType =>
          obtain ⟨hplain, hnumber⟩ : Plain s ∧ host.Number s = none := by
            cases itemType <;> exact h
          refine ⟨hplain, ?_⟩
          show parseItem host (some itemType) s = .str s
          rw [parseItem, hnumber]
  | num n =>
      refine ⟨plain_numeral (hhost.literal n hstored), ?_⟩
      show parseItem host itemType (host.number_text n) = .num n
      cases itemType with
      | none => cases h
      | some itemType =>
          rw [parseItem, hhost.read n hstored]
          cases itemType with
          | int => exact congrArg JsValue.num h
          | float => rfl
  | null | bool _ | arr _ | obj _ => rcases itemType with _ | _ | _ <;> cases h

theorem stored_of_mem {items : List JsValue} (h : StoredItems double items) {item : JsValue}
    (hitem : item ∈ items) : JsonText.Stored double item := by
  induction items with
  | nil => cases hitem
  | cons v vs ih =>
      rcases List.mem_cons.mp hitem with rfl | hitem
      · exact h.1
      · exact ih h.2 hitem

/-- A list comes back when each item does. -/
theorem items_kept_iff (hhost : Standard host double) {items : List JsValue}
    (hstored : StoredItems double items) :
    (listItems (String.intercalate ", " (items.map (joinText host)))).map
        (parseItem host itemType) = items ↔
      ∀ item ∈ items, KeptItem host itemType item := by
  constructor
  · intro heq item hitem
    rw [← heq] at hitem
    obtain ⟨s, hs, rfl⟩ := List.mem_map.mp hitem
    exact keptItem_parseItem (plain_of_listItems hs)
  · intro h
    have hitem := fun item hitem =>
      parseItem_joinText hhost (stored_of_mem hstored hitem) (h item hitem)
    have hplain : ∀ s ∈ items.map (joinText host), Plain s := by
      intro s hs
      obtain ⟨item, hmem, rfl⟩ := List.mem_map.mp hs
      exact (hitem item hmem).1
    rw [listItems_join hplain, List.map_map]
    exact (List.map_congr_left fun item hmem => (hitem item hmem).2).trans (List.map_id items)

end Items

/-! ## Every param -/

/-- Only documents have the type of a param with the JSON widget. -/
theorem document_of_conforms {param : CatalogParam} {value : JsValue}
    (hkind : widgetForParam param = .json) (h : Conforms param.type_token value) :
    (∃ items, value = .arr items) ∨ ∃ members, value = .obj members := by
  -- no hint asks for this widget, so it is the token that does
  have htoken : tokenWidget param.type_token = .json := by
    have hchoices := choices_of_kind hkind (by decide)
    rw [widgetForParam, hchoices] at hkind
    cases hw : hintedWidget param.hint.widget with
    | none => rwa [hw] at hkind
    | some kind =>
        rw [hw] at hkind
        rw [show kind = .json from hkind] at hw
        exact absurd (hintedWidget_mem hw) (by decide)
  rw [tokenWidget] at htoken
  rw [Conforms] at h
  by_cases hbool : param.type_token = "bool"
  · rw [if_pos hbool] at htoken
    cases htoken
  rw [if_neg hbool] at htoken h
  by_cases hnumber : param.type_token = "int" ∨ param.type_token = "float"
  · rw [if_pos hnumber] at htoken
    cases htoken
  rw [if_neg hnumber] at htoken
  rw [not_or] at hnumber
  rw [if_neg hnumber.1, if_neg hnumber.2] at h
  by_cases hstr : param.type_token = "str"
  · rw [hstr] at htoken
    exact absurd htoken (by decide)
  rw [if_neg hstr] at h
  by_cases hdict : isDictType param.type_token = true
  · rw [if_pos hdict] at h
    exact .inr h
  rw [if_neg hdict] at h
  by_cases hdicts : isListOfDictType param.type_token = true
  · rw [if_pos (.inr hdicts)] at h
    obtain ⟨items, rfl, -⟩ := h
    exact .inl ⟨items, rfl⟩
  · rw [if_neg (not_or.mpr ⟨hdict, hdicts⟩)] at htoken
    split at htoken <;> cases htoken

/-- A widget of text gives every value back as a string. -/
theorem text_kept_iff {host : Host} {param : CatalogParam} {value : JsValue}
    (hparse : ∀ raw, parseValue host param raw = .str raw) :
    parseValue host param (formatValue host param value) = value ↔ ∃ s, value = .str s := by
  rw [hparse]
  constructor
  · exact fun heq => ⟨_, heq.symm⟩
  · rintro ⟨s, rfl⟩
    rfl

section Widget

variable {host : Host} {double : JsNumber → Prop} {param : CatalogParam} {value : JsValue}

theorem number_kept_iff (hhost : Standard host double) (hkind : widgetForParam param = .number)
    (hnull : value ≠ .null) (hstored : JsonText.Stored double value) :
    parseValue host param (formatValue host param value) = value ↔ ∃ n, value = .num n := by
  have hparse (raw : String) : parseValue host param raw =
      if js_trim raw.toList = [] then .null
      else ((host.Number raw).map JsValue.num).getD .null := by
    rw [parseValue, hkind]
    cases host.Number raw <;> rfl
  rw [hparse]
  constructor
  · intro heq
    split at heq
    · exact absurd heq.symm hnull
    · cases hn : host.Number (formatValue host param value) with
      | none =>
          rw [hn] at heq
          exact absurd heq.symm hnull
      | some n =>
          rw [hn] at heq
          exact ⟨n, heq.symm⟩
  · rintro ⟨n, rfl⟩
    obtain ⟨hne, htrim, -⟩ := plain_numeral (hhost.literal n hstored)
    show (if js_trim (host.number_text n).toList = [] then JsValue.null
      else ((host.Number (host.number_text n)).map JsValue.num).getD .null) = .num n
    rw [htrim, if_neg (fun h => hne (String.toList_eq_nil_iff.mp h)), hhost.read n hstored]
    rfl

/-- Both widgets of lists read items between commas. -/
theorem list_kept_iff (hhost : Standard host double)
    (hparse : ∀ raw, parseValue host param raw =
      .arr ((listItems raw).map (parseItem host (listItemType param.type_token))))
    (hkind : widgetForParam param ≠ .json) (hstored : JsonText.Stored double value) :
    parseValue host param (formatValue host param value) = value ↔
      ∃ items, value = .arr items ∧
        ∀ item ∈ items, KeptItem host (listItemType param.type_token) item := by
  rw [hparse]
  cases value with
  | arr items =>
      simp only [formatValue, if_neg hkind, JsValue.arr.injEq, exists_eq_left']
      exact items_kept_iff hhost hstored
  | null | bool _ | num _ | str _ | obj _ => simp

theorem json_kept (hhost : Standard host double) (hkind : widgetForParam param = .json)
    (hstored : JsonText.Stored double value) (hconf : Conforms param.type_token value) :
    parseValue host param (formatValue host param value) = value := by
  have hformat : formatValue host param value = stringify host value := by
    rcases document_of_conforms hkind hconf with ⟨items, rfl⟩ | ⟨members, rfl⟩
    · rw [formatValue, if_pos hkind]
    · rw [formatValue, if_pos hkind]
  rw [parseValue, hkind, hformat, hhost.parse]
  simp only [JsonText.parse_stringify hhost.toNumerals hstored, Option.getD_some]

end Widget

/-- The form gives back what it shows exactly when `Kept` holds of it. -/
theorem parse_format_iff (host : Host) (double : JsNumber → Prop) (hhost : Standard host double)
    (param : CatalogParam) (value : JsValue) (hnull : value ≠ .null)
    (hstored : JsonText.Stored double value) (hconf : Conforms param.type_token value) :
    parseValue host param (formatValue host param value) = value ↔ Kept host param value := by
  rw [Kept]
  cases hkind : widgetForParam param with
  | number => exact number_kept_iff hhost hkind hnull hstored
  | list =>
      have hparse (raw : String) : parseValue host param raw =
          .arr ((listItems raw).map (parseItem host (listItemType param.type_token))) := by
        rw [parseValue, hkind]
      exact list_kept_iff hhost hparse (by rw [hkind]; decide) hstored
  | multiselect =>
      have hparse (raw : String) : parseValue host param raw =
          .arr ((listItems raw).map (parseItem host (listItemType param.type_token))) := by
        rw [parseValue, hkind]
      exact list_kept_iff hhost hparse (by rw [hkind]; decide) hstored
  | json => exact iff_true_intro (json_kept hhost hkind hstored hconf)
  | _ => exact text_kept_iff fun raw => by rw [parseValue, hkind]

/-- A host of one-digit numbers. -/
def digit_host : Host :=
  let Number := fun s : String =>
    match s.toList with
    | [c] => if c.isDigit then some (.finite (c.toNat - 48 : Nat)) else none
    | _ => none
  { Number
    parse := JsonText.parse Number
    number_text := fun
      | .finite x => String.ofList [Char.ofNat (48 + x.num.toNat)]
      | .infinite _ => "Infinity"
    object_text := fun _ => "[object Object]"
    wire := id }

def Digit (n : JsNumber) : Prop := ∃ k < 10, n = .finite (k : Nat)

theorem digit_standard : Standard digit_host Digit where
  finite := fun _ ⟨k, _, h⟩ => ⟨k, h⟩
  literal := by
    rintro _ ⟨k, hk, rfl⟩
    revert k
    decide
  read := by
    rintro _ ⟨k, hk, rfl⟩
    revert k
    decide
  parse := rfl

def lags_param : CatalogParam where
  name := "lags"
  type_token := "list[int]"

def columns_param : CatalogParam where
  name := "columns"
  type_token := "list[str]"

theorem conforms_arr {typeToken : String} {items : List JsValue}
    (hscalar : typeToken ∉ ["bool", "int", "float", "str"]) (hdict : isDictType typeToken = false)
    (hlist : isListType typeToken = true) (h : ∀ item ∈ items, ConformingItem typeToken item) :
    Conforms typeToken (.arr items) := by
  simp only [List.mem_cons, List.not_mem_nil, or_false, not_or] at hscalar
  obtain ⟨hbool, hint, hfloat, hstr⟩ := hscalar
  rw [Conforms, if_neg hbool, if_neg hint, if_neg hfloat, if_neg hstr, hdict,
    if_neg Bool.false_ne_true, if_pos (.inl hlist)]
  exact ⟨items, rfl, h⟩

/-- The lags `1, 7` come back. -/
theorem lags_kept : Kept digit_host lags_param (.arr [.num (.finite 1), .num (.finite 7)]) ∧
    parseValue digit_host lags_param
      (formatValue digit_host lags_param (.arr [.num (.finite 1), .num (.finite 7)])) =
        .arr [.num (.finite 1), .num (.finite 7)] := by
  have hkept : Kept digit_host lags_param (.arr [.num (.finite 1), .num (.finite 7)]) := by
    rw [Kept, show widgetForParam lags_param = .list by decide +kernel]
    exact ⟨_, rfl, List.forall_mem_cons.mpr
      ⟨JsNumber.round_int 1, List.forall_mem_singleton.mpr (JsNumber.round_int 7)⟩⟩
  have hconf : Conforms lags_param.type_token (.arr [.num (.finite 1), .num (.finite 7)]) := by
    apply conforms_arr (by decide) (by decide +kernel) (by decide +kernel)
    exact List.forall_mem_cons.mpr ⟨⟨1, rfl⟩, List.forall_mem_singleton.mpr ⟨7, rfl⟩⟩
  exact ⟨hkept, (parse_format_iff digit_host Digit digit_standard lags_param
    (.arr [.num (.finite 1), .num (.finite 7)]) (by nofun)
    ⟨⟨1, by decide, rfl⟩, ⟨7, by decide, rfl⟩, trivial⟩ hconf).mpr hkept⟩

/-- The column `a,b` comes back as two. -/
theorem comma_item_splits :
    ¬ ∀ value, value ≠ .null → JsonText.Stored Digit value →
      Conforms columns_param.type_token value →
      parseValue digit_host columns_param (formatValue digit_host columns_param value) = value := by
  intro h
  have hkind : widgetForParam columns_param = .list := by decide +kernel
  have hitems : listItems "a,b" = ["a", "b"] := by decide
  have hconf : Conforms columns_param.type_token (.arr [.str "a,b"]) :=
    conforms_arr (by decide) (by decide +kernel) (by decide +kernel)
      (List.forall_mem_singleton.mpr ⟨"a,b", rfl⟩)
  have heq := h (.arr [.str "a,b"]) (by nofun) ⟨trivial, trivial⟩ hconf
  rw [formatValue, hkind, parseValue, hkind] at heq
  have hsplit : (listItems "a,b").map (parseItem digit_host none) = [.str "a,b"] :=
    JsValue.arr.inj heq
  rw [hitems] at hsplit
  simp [parseItem] at hsplit

end EmergentFlow.Widgets
