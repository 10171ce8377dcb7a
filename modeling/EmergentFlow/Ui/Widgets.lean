import EmergentFlow.Nodes.Hints
import Mathlib.Data.List.DropRight

/-!
# Ui — Widgets

The pure half of the parameter form (`ui/src/inspector/widgets.ts`): which
widget edits a param, the value a raw input stands for, and the inline
validation of a value. The host functions that convert numbers and texts are
parameters.
-/

namespace EmergentFlow.Widgets

/-! ## Values -/

/-- A number that is not `NaN`. -/
inductive JsNumber where
  | finite (x : Rat)
  | infinite (negative : Bool)
  deriving DecidableEq

/-- A value of the form. -/
inductive JsValue where
  | null
  | bool (b : Bool)
  | num (n : JsNumber)
  | str (s : String)
  | arr (items : List JsValue)
  | obj (members : List (String × JsValue))

/-- What the host converts. `wire` is the number that `json.loads` reads
from the digits that `JSON.stringify` writes. -/
structure Host where
  Number : String → Option JsNumber
  parse : String → Option JsValue
  number_text : JsNumber → String
  object_text : JsValue → String
  wire : Rat → Rat

/-- `Math.round`. -/
def JsNumber.round : JsNumber → JsNumber
  | .finite x => .finite (x + 1 / 2).floor
  | n => n

/-- `String(value)`. -/
def Host.text (host : Host) : JsValue → String
  | .null => "null"
  | .bool b => if b then "true" else "false"
  | .num n => host.number_text n
  | .str s => s
  | value => host.object_text value

/-- `Number(value)`. -/
def Host.number (host : Host) : JsValue → Option JsNumber
  | .null => some (.finite 0)
  | .bool b => some (.finite (if b then 1 else 0))
  | .num n => some n
  | .str s => host.Number s
  | value => host.Number (host.object_text value)

/-- A finite number as `json.loads` types it. -/
def number_json (x : Rat) : Json := if x.den = 1 then .int x.num else .float (.finite x)

/-- The value as the backend reads it from the saved document. -/
def received (host : Host) : JsValue → Json
  | .null => .null
  | .bool b => .bool b
  | .num (.finite x) => number_json (host.wire x)
  | .num (.infinite _) => .null
  | .str s => .str s
  | .arr items => .arr (items.attach.map fun item => received host item.1)
  | .obj members => .obj (members.attach.map fun m => (m.1.1, received host m.1.2))
termination_by value => sizeOf value
decreasing_by
  · have := List.sizeOf_lt_of_mem item.2
    simp only [JsValue.arr.sizeOf_spec]
    omega
  · have := List.sizeOf_lt_of_mem m.2
    have hm : sizeOf m.1 = 1 + sizeOf m.1.1 + sizeOf m.1.2 := by
      cases m.1
      rfl
    simp only [JsValue.obj.sizeOf_spec]
    omega

/-! ## Widgets -/

inductive WidgetKind where
  | select
  | multiselect
  | checkbox
  | number
  | text
  | list
  | json
  | sql
  | code
  | connection
  | column
  | markdown
  | filepath
  deriving DecidableEq

/-- What the form reads of a param. -/
structure CatalogParam where
  name : String
  type_token : String
  required : Bool := false
  hints : Option ValidationHints := none

/-- `param.hints?.…`: without hints every hint is unset. -/
def CatalogParam.hint (param : CatalogParam) : ValidationHints := param.hints.getD {}

def isListType (typeToken : String) : Bool := typeToken = "list" || typeToken.startsWith "list["

def isDictType (typeToken : String) : Bool := typeToken = "dict" || typeToken.startsWith "dict["

def isListOfDictType (typeToken : String) : Bool := typeToken.startsWith "list[dict"

/-- The item type of a list token, if its items are numbers. -/
inductive ItemType where
  | int
  | float
  deriving DecidableEq

def listItemType (typeToken : String) : Option ItemType :=
  if typeToken = "list[int]" then some .int
  else if typeToken = "list[float]" then some .float
  else none

/-- The widgets that a hint asks for by name. -/
def hintedWidget : Option String → Option WidgetKind
  | some "sql" => some .sql
  | some "code" => some .code
  | some "markdown" => some .markdown
  | some "filepath" => some .filepath
  | some "connection" => some .connection
  | some "column" => some .column
  | _ => none

/-- The widget of a type token, without choices. -/
def tokenWidget (typeToken : String) : WidgetKind :=
  if typeToken = "bool" then .checkbox
  else if typeToken = "int" ∨ typeToken = "float" then .number
  else if isDictType typeToken ∨ isListOfDictType typeToken then .json
  else if isListType typeToken then .list
  else .text

def widgetForParam (param : CatalogParam) : WidgetKind :=
  match hintedWidget param.hint.widget with
  | some kind => kind
  | none =>
      match param.hint.choices with
      | some _ => if isListType param.type_token then .multiselect else .select
      | none => tokenWidget param.type_token

/-! ## Parsing -/

/-- White space and line terminators of ECMAScript. -/
def is_js_space (c : Char) : Bool :=
  c.toNat ∈ [0x9, 0xA, 0xB, 0xC, 0xD, 0x20, 0xA0, 0x1680, 0x2028, 0x2029, 0x202F, 0x205F, 0x3000,
    0xFEFF] || (0x2000 ≤ c.toNat && c.toNat ≤ 0x200A)

/-- `trim()`. -/
def js_trim (chars : List Char) : List Char :=
  (chars.dropWhile is_js_space).rdropWhile is_js_space

/-- The items of a comma-separated text. -/
def listItems (raw : String) : List String :=
  (((raw.toList.splitOn ',').map js_trim).filter (· ≠ [])).map String.ofList

/-- One item: a number where the token says so and the text is one. -/
def parseItem (host : Host) (itemType : Option ItemType) (s : String) : JsValue :=
  match itemType with
  | none => .str s
  | some itemType =>
      match host.Number s with
      | none => .str s
      | some n => .num (if itemType = .int then n.round else n)

def parseValue (host : Host) (param : CatalogParam) (raw : String) : JsValue :=
  match widgetForParam param with
  | .number =>
      if js_trim raw.toList = [] then .null
      else
        match host.Number raw with
        | none => .null
        | some n => .num n
  | .list | .multiselect =>
      .arr ((listItems raw).map (parseItem host (listItemType param.type_token)))
  | .json => (host.parse raw).getD (.str raw)
  | _ => .str raw

/-! ## Validation -/

def isEmptyValue : JsValue → Bool
  | .null => true
  | .str s => s = ""
  | .arr items => items.isEmpty
  | _ => false

/-- The messages of the form. -/
inductive FormError where
  | Required
  | Must_be_a_number
  | Must_be_ge (min : Rat)
  | Must_be_le (max : Rat)
  | Must_be_a_list
  | Must_have_at_least (items : Int)
  | Must_have_at_most (items : Int)
  | Unknown (items : List String)
  | Invalid_JSON
  | Must_be_a_JSON_array
  | Must_be_a_JSON_object
  | Must_be_at_least (characters : Int)
  | Must_be_at_most (characters : Int)
  | Does_not_match (pattern : String)
  | Must_be_one_of (choices : List Json)

/-- A lower bound, then an upper one. -/
def boundsError {α : Type} [LT α] [DecidableLT α] (min max : Option α) (n : α)
    (below above : α → FormError) : Option FormError :=
  (min.filter (n < ·)).map below <|> (max.filter (· < n)).map above

/-- `choices.includes(s)`. -/
def includes (choices : List Json) (s : String) : Bool :=
  choices.any fun choice => choice.str? = some s

/-- The bounds of a number. -/
def numberError (host : Host) (hints : ValidationHints) (value : JsValue) : Option FormError :=
  match host.number value with
  | some (.finite n) => boundsError hints.min hints.max n .Must_be_ge .Must_be_le
  | _ => some .Must_be_a_number

/-- `Array.isArray(value) ? value : []`. -/
def arrayItems : JsValue → List JsValue
  | .arr items => items
  | _ => []

/-- The length of a list, in items. -/
def itemsError (hints : ValidationHints) (value : JsValue) : Option FormError :=
  boundsError hints.min_length hints.max_length ((arrayItems value).length : Int)
    .Must_have_at_least .Must_have_at_most

def multiselectError (host : Host) (hints : ValidationHints) (value : JsValue) :
    Option FormError :=
  match value with
  | .arr items =>
      itemsError hints value <|>
        let unknown := items.filter fun item => !includes (hints.choices.getD []) (host.text item)
        if unknown.isEmpty then none else some (.Unknown (unknown.map host.text))
  | _ => some .Must_be_a_list

def jsonError (typeToken : String) (value : JsValue) : Option FormError :=
  match value with
  | .str _ => some .Invalid_JSON
  | value =>
      if isListOfDictType typeToken then
        match value with
        | .arr _ => none
        | _ => some .Must_be_a_JSON_array
      else
        match value with
        | .obj _ => none
        | _ => some .Must_be_a_JSON_object

/-- `str.length`: code units of UTF-16. -/
def utf16Length (s : String) : Nat := (s.toList.map fun c => if c.toNat < 0x10000 then 1 else 2).sum

/-- An empty pattern is no pattern, and one that does not compile matches. -/
def patternError (regex : Regex) (hints : ValidationHints) (s : String) : Option FormError :=
  match hints.pattern with
  | none => none
  | some p =>
      if p = "" then none
      else
        match regex p with
        | none => none
        | some m => if search m s.toList then none else some (.Does_not_match p)

def choicesError (hints : ValidationHints) (s : String) : Option FormError :=
  (hints.choices.filter fun choices => !includes choices s).map .Must_be_one_of

def textError (regex : Regex) (hints : ValidationHints) (s : String) : Option FormError :=
  boundsError hints.min_length hints.max_length (utf16Length s : Int)
      .Must_be_at_least .Must_be_at_most <|>
    patternError regex hints s <|> choicesError hints s

/-- The checks of a value that is not empty. -/
def filledError (regex : Regex) (host : Host) (param : CatalogParam) (value : JsValue) :
    Option FormError :=
  match widgetForParam param with
  | .number => numberError host param.hint value
  | .multiselect => multiselectError host param.hint value
  | .list => itemsError param.hint value
  | .column =>
      if isListType param.type_token then itemsError param.hint value
      else textError regex param.hint (host.text value)
  | .json => jsonError param.type_token value
  | _ => textError regex param.hint (host.text value)

def validateValue (regex : Regex) (host : Host) (param : CatalogParam) (value : JsValue) :
    Option FormError :=
  let empty := isEmptyValue value
  if param.required && empty then some .Required
  else if empty then none
  else filledError regex host param value

end EmergentFlow.Widgets
