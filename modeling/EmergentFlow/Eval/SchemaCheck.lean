import EmergentFlow.Lib.Checks
import EmergentFlow.Lib.Json
import EmergentFlow.Lib.TreeCheck

/-!
# Eval — SchemaCheck

The two checkers of a small part of JSON Schema: `_validate_json_schema` of
the language-model node (`llm/__init__.py`) and `_json_schema_violations` of
the scorer (`eval/score.py`). They are one walk over a value and a schema,
and differ in two places: in what passes for an integer, and in whether they
look inside a value whose type keyword they do not know.
-/

namespace EmergentFlow

/-! ## Types -/

/-- The keys of `_TYPE_MAP`. -/
inductive SchemaType where
  | object
  | array
  | string
  | number
  | integer
  | boolean
  | null
  deriving DecidableEq, Repr

/-- `_TYPE_MAP.get`. -/
def TYPE_MAP : Json → Option SchemaType
  | .str "object" => some .object
  | .str "array" => some .array
  | .str "string" => some .string
  | .str "number" => some .number
  | .str "integer" => some .integer
  | .str "boolean" => some .boolean
  | .str "null" => some .null
  | _ => none

/-- `type(data).__name__`. -/
def type_name : Json → String
  | .null => "NoneType"
  | .bool _ => "bool"
  | .int _ => "int"
  | .float _ => "float"
  | .str _ => "str"
  | .arr _ => "list"
  | .obj _ => "dict"

/-- `isinstance` with the types of `_TYPE_MAP`, a bool being no number. -/
def instance_of : SchemaType → Json → Bool
  | .object, .obj _ => true
  | .array, .arr _ => true
  | .string, .str _ => true
  | .number, .int _ => true
  | .number, .float _ => true
  | .integer, .int _ => true
  | .boolean, .bool _ => true
  | .null, .null => true
  | _, _ => false

/-- A float without a fractional part, `float.is_integer`. -/
def whole_float : Json → Bool
  | .float (.finite x) => x.den = 1
  | _ => false

/-! ## The walk -/

/-- A member of a schema, `schema.get`. -/
def keyword (schema : Json) (key : String) : Option Json :=
  match schema.get? key with
  | some .null => none
  | found => found

inductive SchemaError where
  | type_error
  | attribute_error
  deriving DecidableEq, Repr

/-- What a checker finds at a value. -/
inductive SchemaFinding where
  | mismatch (expected : Json) (got : String)
  | missing (req : Json)

/-- What the two checkers differ in. -/
structure SchemaChecker where
  matches_type : SchemaType → Json → Bool
  /-- whether to look inside a value of that kind under that type -/
  looks_into : String → Option Json → Bool

/-- Whether the value passes the type of the schema. -/
def SchemaChecker.accepts (c : SchemaChecker) (data schema : Json) : Bool :=
  match (keyword schema "type").bind TYPE_MAP with
  | none => true
  | some t => c.matches_type t data

/-- The items of a value in a `for` loop. -/
def iterate : Json → Except SchemaError (List Json)
  | .arr items => .ok items
  | .str s => .ok (s.toList.map fun c => .str c.toString)
  | .obj members => .ok (members.map fun e => .str e.1)
  | _ => .error .type_error

/-- `req not in data`. -/
def lacks (members : List (String × Json)) : Json → Bool
  | .str key => (members.lookup key).isNone
  | _ => true

/-- One round of the loop over `required`. -/
def check_required (members : List (String × Json)) (req : Json) :
    Except SchemaError (List SchemaFinding) := do
  Checks.guard req.hashable .type_error
  pure (if lacks members req then [.missing req] else [])

/-- `schema.get("required", [])`: a `null` there is not the default. -/
def required (schema : Json) : Json := (schema.get? "required").getD (.arr [])

/-- `schema.get("properties", {})`. -/
def properties (schema : Json) : Json := (schema.get? "properties").getD (.obj [])

/-- What a checker asks of the members of an object itself. -/
def check_object (members : List (String × Json)) (schema : Json) :
    Except SchemaError (List SchemaFinding) := do
  let reqs ← iterate (required schema)
  let found ← reqs.mapM (check_required members)
  Checks.guard (properties schema).isObj .attribute_error
  pure found.flatten

/-- What a checker does at a value once it has looked its type up. -/
def SchemaChecker.inspect (c : SchemaChecker) (x : Json × Json) :
    Except SchemaError (List SchemaFinding) :=
  let type := keyword x.2 "type"
  if !c.accepts x.1 x.2 then pure [.mismatch (type.getD .null) (type_name x.1)]
  else match x.1 with
    | .obj members => if c.looks_into "object" type then check_object members x.2 else pure []
    | _ => pure []

/-- What a checker does at a value, before it goes on to those inside. -/
def SchemaChecker.own (c : SchemaChecker) (x : Json × Json) :
    Except SchemaError (List SchemaFinding) := do
  Checks.guard x.2.isObj .attribute_error
  Checks.guard (((keyword x.2 "type").map Json.hashable).getD true) .type_error
  c.inspect x

/-- A step into a value. -/
inductive SchemaStep where
  | key (key : String)
  | index (i : Nat)

/-- The properties that an object has, with their schemas. -/
def shared_properties (members : List (String × Json)) :
    Json → List (SchemaStep × Json × Json)
  | .obj props => props.filterMap fun p =>
      (members.lookup p.1).map fun value => (.key p.1, value, p.2)
  | _ => []

/-- The values a checker goes on to, with their schemas. -/
def SchemaChecker.children (c : SchemaChecker) :
    Json × Json → List (SchemaStep × Json × Json)
  | (data, schema) =>
    -- a value of the wrong type is reported and not looked into
    if !c.accepts data schema then []
    else match data with
      | .obj members =>
          if c.looks_into "object" (keyword schema "type") then
            shared_properties members (properties schema)
          else []
      | .arr items =>
          if c.looks_into "array" (keyword schema "type") then
            match keyword schema "items" with
            | none => []
            | some item_schema => items.zipIdx.map fun e => (.index e.2, e.1, item_schema)
          else []
      | _ => []

theorem sizeOf_lookup {members : List (String × Json)} {key : String} {value : Json}
    (h : members.lookup key = some value) : sizeOf value < sizeOf members := by
  induction members with
  | nil => cases h
  | cons e members ih =>
      obtain ⟨k, v⟩ := e
      rw [List.lookup_cons] at h
      simp only [List.cons.sizeOf_spec, Prod.mk.sizeOf_spec]
      split at h
      · cases h
        omega
      · have := ih h
        omega

/-- Going on is going deeper. -/
theorem SchemaChecker.sizeOf_children {c : SchemaChecker} {x y : Json × Json} {step : SchemaStep}
    (h : (step, y) ∈ c.children x) : sizeOf y.1 < sizeOf x.1 := by
  obtain ⟨data, schema⟩ := x
  simp only [children] at h
  -- the data gets smaller at each step, whatever the schema does
  split at h
  · cases h
  split at h
  next members =>
    split at h
    · cases hprops : properties schema with
      | obj props =>
          rw [hprops] at h
          obtain ⟨p, -, hp⟩ := List.mem_filterMap.mp h
          obtain ⟨value, hvalue, heq⟩ := Option.map_eq_some_iff.mp hp
          cases heq
          have := sizeOf_lookup hvalue
          simp only [Json.obj.sizeOf_spec]
          omega
      | _ =>
          rw [hprops] at h
          cases h
    · cases h
  next items =>
    split at h
    · split at h
      · cases h
      · obtain ⟨⟨item, i⟩, hmem, heq⟩ := List.mem_map.mp h
        cases heq
        have hitem := List.mem_of_getElem? (List.mem_zipIdx_iff_getElem?.mp hmem)
        have := List.sizeOf_lt_of_mem hitem
        simp only [Json.arr.sizeOf_spec] at this ⊢
        omega
    · cases h
  next => cases h

/-- The walk: what is found at the value, then what is found inside. -/
def SchemaChecker.validate {π μ : Type} (c : SchemaChecker) (report : π → SchemaFinding → μ)
    (extend : π → SchemaStep → π) (path : π) (x : Json × Json) : Except SchemaError (List μ) := do
  let own ← c.own x
  let rest ← (c.children x).attach.mapM fun ⟨y, h⟩ =>
    have := sizeOf_children h
    validate c report extend (extend path y.1) y.2
  pure (own.map (report path) ++ rest.flatten)
termination_by sizeOf x.1

theorem SchemaChecker.run_by {π μ : Type} (c : SchemaChecker) (report : π → SchemaFinding → μ)
    (extend : π → SchemaStep → π) :
    TreeCheck.Walk.RunBy ⟨c.own, c.children⟩ report extend (c.validate report extend) where
  eq path x := by
    rw [validate]
    congr 1
    funext own
    congr 1
    exact Checks.mapM_attach
      (fun y : SchemaStep × Json × Json => c.validate report extend (extend path y.1) y.2) _
  wellFounded := by
    refine Subrelation.wf (fun {y x} h => ?_) (measure fun x : Json × Json => sizeOf x.1).wf
    obtain ⟨step, hstep⟩ := h
    exact sizeOf_children hstep

/-! ## The two checkers -/

/-- A violation that the node reports, with its path. -/
structure SchemaViolation where
  path : String
  finding : SchemaFinding

/-- The path of a value inside another: `f"{path}.{key}"`, `f"{path}[{i}]"`. -/
def sub_path (path : String) : SchemaStep → String
  | .key key => path ++ "." ++ key
  | .index i => path ++ "[" ++ toString i ++ "]"

/-- The node's checker asks for an `int` and looks inside a value only under
its own type or under none. -/
def llm_checker : SchemaChecker where
  matches_type := instance_of
  looks_into kind
    | none => true
    | some (.str type) => type = kind
    | some _ => false

/-- `_validate_json_schema`. -/
def validate_json_schema (data schema : Json) (path : String) :
    Except SchemaError (List SchemaViolation) :=
  llm_checker.validate SchemaViolation.mk sub_path path (data, schema)

/-- The scorer's checker takes a whole-number float for an integer and looks
inside every value that passes. -/
def score_checker : SchemaChecker where
  matches_type type data := instance_of type data || (type = .integer && whole_float data)
  looks_into _ _ := true

/-- `_json_schema_violations`, which reports no paths. -/
def json_schema_violations (data schema : Json) : Except SchemaError (List SchemaFinding) :=
  score_checker.validate (fun () finding => finding) (fun () _ => ()) () (data, schema)

end EmergentFlow
