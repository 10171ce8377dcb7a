import Mathlib.Tactic.MkIffOfInductiveProp
import EmergentFlow.Lib.Codec
import EmergentFlow.Lib.Text
import EmergentFlow.Ir.Graph

/-!
# Ir — Document

The parts of a graph as JSON documents: what `model_dump_json` writes of ports,
edges and param values (`emergentflow/ir/`) and what `model_validate` makes of
it. All models forbid unknown members. Ports and edges are those of `Ir.Graph`;
a value that is loaded may hold floats that are no numbers.

The validator's lax coercions and its fresh ids are given.
-/

namespace EmergentFlow

/-- Where in a document something stands. -/
abbrev Place := List String

/-- What the validator does by itself: it takes some documents for a number or
a truth value, the number or value itself among them, and `new_id` gives an id
to what has none. -/
structure Coercions where
  int : Json → Option Int
  float : Json → Option JsonFloat
  bool : Json → Option Bool
  new_id : Place → String
  int_self : ∀ i, int (.int i) = some i
  float_self : ∀ x, float (.float x) = some x
  bool_self : ∀ b, bool (.bool b) = some b

/-! ## Scalars -/

/-- A text that the field's validator accepts. -/
def nonblank_text : Codec String := Codec.str.refine nonblank

def optional_text : Codec (Option String) := Codec.str.nullable

def float_is_finite : JsonFloat → Bool
  | .finite _ => true
  | _ => false

/-- JSON has no other floats than numbers; the rest is written as `null`. -/
def dump_float : JsonFloat → Json
  | .finite x => .float (.finite x)
  | _ => .null

def Coercions.int_codec (co : Coercions) : Codec Int :=
  .coerced (fun _ => True) .int co.int fun i _ => co.int_self i

def Coercions.bool_codec (co : Coercions) : Codec Bool :=
  .coerced (fun _ => True) .bool co.bool fun b _ => co.bool_self b

def Coercions.float_codec (co : Coercions) : Codec JsonFloat :=
  .coerced (float_is_finite · = true) dump_float co.float fun x hx => by
    cases x with
    | finite x => exact co.float_self _
    | _ => cases hx

@[simp] theorem Coercions.int_codec_valid (co : Coercions) (i : Int) : co.int_codec.valid i :=
  trivial

@[simp] theorem Coercions.int_codec_expressible (co : Coercions) (i : Int) :
    co.int_codec.expressible i := trivial

@[simp] theorem Coercions.bool_codec_valid (co : Coercions) (b : Bool) : co.bool_codec.valid b :=
  trivial

@[simp] theorem Coercions.bool_codec_expressible (co : Coercions) (b : Bool) :
    co.bool_codec.expressible b := trivial

@[simp] theorem Coercions.bool_codec_encode (co : Coercions) (b : Bool) :
    co.bool_codec.encode b = .bool b := rfl

@[simp] theorem Coercions.float_codec_valid (co : Coercions) (x : JsonFloat) :
    co.float_codec.valid x := trivial

@[simp] theorem Coercions.float_codec_expressible (co : Coercions) (x : JsonFloat) :
    co.float_codec.expressible x ↔ float_is_finite x = true := Iff.rfl

@[simp] theorem nonblank_text_valid (s : String) :
    nonblank_text.valid s ↔ nonblank s = true := by simp [nonblank_text]

@[simp] theorem nonblank_text_expressible (s : String) : nonblank_text.expressible s := trivial

@[simp] theorem optional_text_valid (s : Option String) : optional_text.valid s :=
  fun _ _ => trivial

theorem no_text_valid : optional_text.valid none := optional_text_valid none

theorem Coercions.new_id_valid (co : Coercions) (place : Place) :
    Codec.str.valid (co.new_id place) := Codec.valid_str _

@[simp] theorem optional_text_expressible (s : Option String) : optional_text.expressible s :=
  fun _ _ => ⟨trivial, nofun⟩

/-! ## Enumerations -/

def Direction.value : Direction → String
  | .IN => "in"
  | .OUT => "out"

def Cardinality.value : Cardinality → String
  | .ONE => "one"
  | .MANY => "many"

def Paradigm.value : Paradigm → String
  | .FUNCTIONAL => "functional"
  | .DECLARATIVE => "declarative"

def Direction.codec : Codec Direction :=
  .enum Direction.value [.IN, .OUT] (by decide) (by intro d; cases d <;> simp)

def Cardinality.codec : Codec Cardinality :=
  .enum Cardinality.value [.ONE, .MANY] (by decide) (by intro c; cases c <;> simp)

def Paradigm.codec : Codec Paradigm :=
  .enum Paradigm.value [.FUNCTIONAL, .DECLARATIVE] (by decide) (by intro p; cases p <;> simp)

@[simp] theorem Direction.codec_valid (d : Direction) : Direction.codec.valid d := trivial

@[simp] theorem Direction.codec_expressible (d : Direction) : Direction.codec.expressible d :=
  trivial

@[simp] theorem Cardinality.codec_valid (c : Cardinality) : Cardinality.codec.valid c := trivial

@[simp] theorem Cardinality.codec_expressible (c : Cardinality) :
    Cardinality.codec.expressible c := trivial

@[simp] theorem Paradigm.codec_valid (p : Paradigm) : Paradigm.codec.valid p := trivial

@[simp] theorem Paradigm.codec_expressible (p : Paradigm) : Paradigm.codec.expressible p :=
  trivial

/-! ## Ports and edges -/

def Port.fields (co : Coercions) (place : Place) :=
  Fields.optional "id" (co.new_id place) Codec.str (co.new_id_valid place) <|
  Fields.required "name" nonblank_text <|
  Fields.required "direction" Direction.codec <|
  Fields.optional "data_type" "any" Codec.str (Codec.valid_str _) <|
  Fields.optional "cardinality" .ONE Cardinality.codec (Cardinality.codec_valid _) <|
  Fields.optional "label" none optional_text no_text_valid <|
  Fields.nil

def Port.Checked (p : Port) : Prop := nonblank p.name = true

def Port.codec (co : Coercions) (place : Place) : Codec Port :=
  (((Port.fields co place).object (by simp [fields])).iso
    (fun (id, name, direction, data_type, cardinality, label, _) =>
      { id, name, direction, data_type, cardinality, label })
    (fun p => (p.id, p.name, p.direction, p.data_type, p.cardinality, p.label, .unit))
    (fun _ => rfl) (fun _ => rfl)).reword Port.Checked (fun _ => True)
    (fun p => by simp [fields, Checked]) (fun p => by simp [fields])

def Port.dump (p : Port) : Json :=
  .obj [("id", .str p.id), ("name", .str p.name), ("direction", Direction.codec.encode p.direction),
    ("data_type", .str p.data_type), ("cardinality", Cardinality.codec.encode p.cardinality),
    ("label", optional_text.encode p.label)]

@[simp] theorem Port.codec_valid (co : Coercions) (place : Place) (p : Port) :
    (Port.codec co place).valid p ↔ p.Checked := Iff.rfl

@[simp] theorem Port.codec_expressible (co : Coercions) (place : Place) (p : Port) :
    (Port.codec co place).expressible p := trivial

def PortRef.fields :=
  Fields.required "node_id" nonblank_text <|
  Fields.required "port_id" nonblank_text <|
  Fields.nil

@[mk_iff] structure PortRef.Checked (r : PortRef) : Prop where
  node_id : nonblank r.node_id = true
  port_id : nonblank r.port_id = true

def PortRef.codec : Codec PortRef :=
  ((PortRef.fields.object (by simp [fields])).iso
    (fun (node_id, port_id, _) => { node_id, port_id })
    (fun r => (r.node_id, r.port_id, .unit))
    (fun _ => rfl) (fun _ => rfl)).reword PortRef.Checked (fun _ => True)
    (fun r => by simp [fields, checked_iff])
    (fun r => by simp [fields])

@[simp] theorem PortRef.codec_valid (r : PortRef) : PortRef.codec.valid r ↔ r.Checked := Iff.rfl

@[simp] theorem PortRef.codec_expressible (r : PortRef) : PortRef.codec.expressible r := trivial

def Edge.fields (co : Coercions) (place : Place) :=
  Fields.optional "id" (co.new_id place) Codec.str (co.new_id_valid place) <|
  Fields.required "source" PortRef.codec <|
  Fields.required "target" PortRef.codec <|
  Fields.optional "type_compatible" none co.bool_codec.nullable (Codec.valid_nullable_none _) <|
  Fields.nil

@[mk_iff] structure Edge.Checked (e : Edge) : Prop where
  source : e.source.Checked
  target : e.target.Checked

def Edge.codec (co : Coercions) (place : Place) : Codec Edge :=
  (((Edge.fields co place).object (by simp [fields])).iso
    (fun (id, source, target, type_compatible, _) => { id, source, target, type_compatible })
    (fun e => (e.id, e.source, e.target, e.type_compatible, .unit))
    (fun _ => rfl) (fun _ => rfl)).reword Edge.Checked (fun _ => True)
    (fun e => by simp [fields, checked_iff])
    (fun e => by simp [fields])

def Edge.dump (e : Edge) : Json :=
  .obj [("id", .str e.id), ("source", PortRef.codec.encode e.source),
    ("target", PortRef.codec.encode e.target),
    ("type_compatible", (e.type_compatible.map Json.bool).getD .null)]

@[simp] theorem Edge.codec_valid (co : Coercions) (place : Place) (e : Edge) :
    (Edge.codec co place).valid e ↔ e.Checked := Iff.rfl

@[simp] theorem Edge.codec_expressible (co : Coercions) (place : Place) (e : Edge) :
    (Edge.codec co place).expressible e := trivial

namespace Wire

/-! ## Param values -/

/-- The location of an artifact outside the graph (ADR 0004). -/
structure ArtifactRef where
  uri : String
  media_type : Option String := none
  deriving DecidableEq, Repr

/-- `ARTIFACT_REF_KIND`, the tag that tells a reference from a mapping. -/
def ARTIFACT_REF_KIND : String := "artifact_ref"

def ArtifactRef.fields :=
  Fields.optional "kind" .unit (Codec.literal ARTIFACT_REF_KIND) (Codec.valid_literal ..) <|
  Fields.required "uri" nonblank_text <|
  Fields.optional "media_type" none optional_text no_text_valid <|
  Fields.nil

def ArtifactRef.Checked (r : ArtifactRef) : Prop := nonblank r.uri = true

def ArtifactRef.codec : Codec ArtifactRef :=
  ((ArtifactRef.fields.object (by simp [fields])).iso
    (fun (_, uri, media_type, _) => { uri, media_type })
    (fun r => (.unit, r.uri, r.media_type, .unit))
    (fun _ => rfl) (fun _ => rfl)).reword ArtifactRef.Checked (fun _ => True)
    (fun r => by simp [fields, Checked]) (fun r => by simp [fields])

/-- A param's value as it is loaded. -/
inductive ParamValue where
  | none
  | bool (b : Bool)
  | int (i : Int)
  | float (x : JsonFloat)
  | str (s : String)
  | artifact_ref (ref : ArtifactRef)
  | sequence (items : List ParamValue)
  | mapping (items : List (String × ParamValue))
  deriving Repr

mutual

/-- A value as `model_dump_json` writes it. -/
def ParamValue.dump : ParamValue → Json
  | .none => .null
  | .bool b => .bool b
  | .int i => .int i
  | .float x => dump_float x
  | .str s => .str s
  | .artifact_ref ref => ArtifactRef.codec.encode ref
  | .sequence items => .arr (dump_items items)
  | .mapping items => .obj (dump_members items)

def dump_items : List ParamValue → List Json
  | [] => []
  | v :: rest => v.dump :: dump_items rest

def dump_members : List (String × ParamValue) → List (String × Json)
  | [] => []
  | (key, v) :: rest => (key, v.dump) :: dump_members rest

end

/-- `_param_value_discriminator` on a dictionary. -/
def tagged (members : List (String × Json)) : Bool :=
  (members.lookup "kind").bind Json.str? = some ARTIFACT_REF_KIND

mutual

/-- The discriminated union: the tag picks the member, and a scalar keeps its
own type. -/
def ParamValue.validate : Json → Option ParamValue
  | .null => some .none
  | .bool b => some (.bool b)
  | .int i => some (.int i)
  | .float x => some (.float x)
  | .str s => some (.str s)
  | .arr items => (validate_items items).map .sequence
  | .obj members =>
      if tagged members then (ArtifactRef.codec.decode (.obj members)).map .artifact_ref
      else (validate_members members).map .mapping

def validate_items : List Json → Option (List ParamValue)
  | [] => some []
  | j :: rest => do
      let v ← ParamValue.validate j
      let vs ← validate_items rest
      return v :: vs

def validate_members : List (String × Json) → Option (List (String × ParamValue))
  | [] => some []
  | (key, j) :: rest => do
      let v ← ParamValue.validate j
      let vs ← validate_members rest
      return (key, v) :: vs

end

mutual

/-- What the validator guarantees of a value: references have a location, and
no mapping looks like one. -/
def ParamValue.Checked : ParamValue → Prop
  | .artifact_ref ref => ref.Checked
  | .sequence items => ItemsChecked items
  | .mapping items =>
      items.lookup "kind" ≠ some (.str ARTIFACT_REF_KIND) ∧ MembersChecked items
  | _ => True

def ItemsChecked : List ParamValue → Prop
  | [] => True
  | v :: rest => v.Checked ∧ ItemsChecked rest

def MembersChecked : List (String × ParamValue) → Prop
  | [] => True
  | (_, v) :: rest => v.Checked ∧ MembersChecked rest

end

mutual

/-- All floats in the value are numbers. -/
def ParamValue.Finite : ParamValue → Prop
  | .float x => float_is_finite x = true
  | .sequence items => ItemsFinite items
  | .mapping items => MembersFinite items
  | _ => True

def ItemsFinite : List ParamValue → Prop
  | [] => True
  | v :: rest => v.Finite ∧ ItemsFinite rest

def MembersFinite : List (String × ParamValue) → Prop
  | [] => True
  | (_, v) :: rest => v.Finite ∧ MembersFinite rest

end

theorem dump_eq_str {v : ParamValue} {s : String} : v.dump = .str s ↔ v = .str s := by
  cases v with
  | float x => cases x <;> simp [ParamValue.dump, dump_float]
  | artifact_ref ref =>
      simp only [ParamValue.dump, reduceCtorEq, iff_false]
      exact nofun
  | _ => simp [ParamValue.dump]

theorem lookup_dump_members (key : String) (items : List (String × ParamValue)) :
    (dump_members items).lookup key = (items.lookup key).map ParamValue.dump := by
  induction items with
  | nil => rfl
  | cons m rest ih =>
      obtain ⟨k, v⟩ := m
      cases hk : key == k <;> simp [dump_members, List.lookup_cons, hk, ih]

theorem lookup_validate_members {key : String} {members : List (String × Json)}
    {items : List (String × ParamValue)} (h : validate_members members = some items) :
    (members.lookup key).bind ParamValue.validate = items.lookup key := by
  induction members generalizing items with
  | nil =>
      cases h
      rfl
  | cons m rest ih =>
      obtain ⟨k, j⟩ := m
      simp only [validate_members, Option.bind_eq_bind, Option.bind_eq_some_iff] at h
      obtain ⟨v, hv, vs, hvs, heq⟩ := h
      cases heq
      cases hk : key == k <;> simp [List.lookup_cons, hk, hv, ih hvs]

theorem validate_eq_str {j : Json} {s : String}
    (h : ParamValue.validate j = some (.str s)) : j = .str s := by
  cases j with
  | str s' =>
      rw [ParamValue.validate, Option.some.injEq, ParamValue.str.injEq] at h
      rw [h]
  | obj members =>
      rw [ParamValue.validate] at h
      split at h <;> simp at h
  | _ => simp [ParamValue.validate] at h

/-- A dictionary written of a mapping is tagged as little as the mapping. -/
theorem tagged_dump_members (items : List (String × ParamValue)) :
    tagged (dump_members items) = true ↔ items.lookup "kind" = some (.str ARTIFACT_REF_KIND) := by
  rw [tagged, decide_eq_true_eq, lookup_dump_members]
  cases items.lookup "kind" with
  | none => simp
  | some v =>
      simp only [Option.map_some, Option.bind_some, Option.some.injEq, ← dump_eq_str]
      cases v.dump <;> simp [Json.str?]

mutual

theorem ParamValue.validate_dump : ∀ (v : ParamValue), v.Checked → v.Finite →
    ParamValue.validate v.dump = some v
  | .none, _, _ => rfl
  | .bool _, _, _ => rfl
  | .int _, _, _ => rfl
  | .float x, _, hx => by
      cases x with
      | finite x => rfl
      | _ => cases hx
  | .str _, _, _ => rfl
  | .artifact_ref ref, href, _ => by
      have hback := ArtifactRef.codec.complete href trivial
      have htag : tagged (ArtifactRef.fields.encode
        (.unit, ref.uri, ref.media_type, .unit)) = true := rfl
      rw [ParamValue.dump, show ArtifactRef.codec.encode ref
        = .obj (ArtifactRef.fields.encode (.unit, ref.uri, ref.media_type, .unit)) from rfl] at *
      rw [ParamValue.validate, if_pos htag, hback, Option.map_some]
  | .sequence items, hitems, hfin => by
      rw [ParamValue.dump, ParamValue.validate, validate_dump_items items hitems hfin,
        Option.map_some]
  | .mapping items, hitems, hfin => by
      have htag : ¬ tagged (dump_members items) = true := by
        rw [tagged_dump_members]
        exact hitems.1
      rw [ParamValue.dump, ParamValue.validate, if_neg htag,
        validate_dump_members items hitems.2 hfin, Option.map_some]

theorem validate_dump_items : ∀ (items : List ParamValue), ItemsChecked items →
    ItemsFinite items → validate_items (dump_items items) = some items
  | [], _, _ => rfl
  | v :: rest, hitems, hfin => by
      rw [dump_items, validate_items, v.validate_dump hitems.1 hfin.1,
        validate_dump_items rest hitems.2 hfin.2]
      rfl

theorem validate_dump_members : ∀ (items : List (String × ParamValue)), MembersChecked items →
    MembersFinite items → validate_members (dump_members items) = some items
  | [], _, _ => rfl
  | (key, v) :: rest, hitems, hfin => by
      rw [dump_members, validate_members, v.validate_dump hitems.1 hfin.1,
        validate_dump_members rest hitems.2 hfin.2]
      rfl

end

mutual

theorem ParamValue.validate_checked : ∀ (j : Json) {v : ParamValue},
    ParamValue.validate j = some v → v.Checked
  | .null, _, h => by cases h; trivial
  | .bool _, _, h => by cases h; trivial
  | .int _, _, h => by cases h; trivial
  | .float _, _, h => by cases h; trivial
  | .str _, _, h => by cases h; trivial
  | .arr items, v, h => by
      rw [ParamValue.validate, Option.map_eq_some_iff] at h
      obtain ⟨vs, hvs, rfl⟩ := h
      exact validate_items_checked items hvs
  | .obj members, v, h => by
      rw [ParamValue.validate] at h
      split at h
      · obtain ⟨ref, href, rfl⟩ := Option.map_eq_some_iff.mp h
        exact ArtifactRef.codec.sound href
      · rename_i htag
        obtain ⟨vs, hvs, rfl⟩ := Option.map_eq_some_iff.mp h
        refine ⟨fun hkind => htag ?_, validate_members_checked members hvs⟩
        rw [← lookup_validate_members hvs, Option.bind_eq_some_iff] at hkind
        obtain ⟨j, hj, hv⟩ := hkind
        rw [validate_eq_str hv] at hj
        simp [tagged, hj, Json.str?]

theorem validate_items_checked : ∀ (items : List Json) {vs : List ParamValue},
    validate_items items = some vs → ItemsChecked vs
  | [], _, h => by cases h; trivial
  | j :: rest, vs, h => by
      simp only [validate_items, Option.bind_eq_bind, Option.bind_eq_some_iff] at h
      obtain ⟨v, hv, vs', hvs, heq⟩ := h
      cases heq
      exact ⟨ParamValue.validate_checked j hv, validate_items_checked rest hvs⟩

theorem validate_members_checked : ∀ (members : List (String × Json))
    {vs : List (String × ParamValue)}, validate_members members = some vs → MembersChecked vs
  | [], _, h => by cases h; trivial
  | (key, j) :: rest, vs, h => by
      simp only [validate_members, Option.bind_eq_bind, Option.bind_eq_some_iff] at h
      obtain ⟨v, hv, vs', hvs, heq⟩ := h
      cases heq
      exact ⟨ParamValue.validate_checked j hv, validate_members_checked rest hvs⟩

end

def ParamValue.codec : Codec ParamValue where
  valid := ParamValue.Checked
  expressible := ParamValue.Finite
  encode := ParamValue.dump
  decode := ParamValue.validate
  sound := ParamValue.validate_checked _
  complete := ParamValue.validate_dump _

theorem ParamValue.none_checked : ParamValue.codec.valid .none := trivial

@[simp] theorem ParamValue.codec_valid (v : ParamValue) :
    ParamValue.codec.valid v ↔ v.Checked := Iff.rfl

@[simp] theorem ParamValue.codec_expressible (v : ParamValue) :
    ParamValue.codec.expressible v ↔ v.Finite := Iff.rfl

end Wire

end EmergentFlow
