import EmergentFlow.Ir.Document

/-!
# Ir — GraphDocument

The graph as a JSON document (`emergentflow/ir/params.py`, `node.py` and
`graph.py`). Its params, nodes and levels stand here once more, because what is
loaded may carry floats that are no numbers and any integer as its version;
`Loaded n` are the inner graphs of a graph that is nested at most `n` deep.
-/

namespace EmergentFlow.Wire

/-! ## Params -/

/-- A typed parameter as it is loaded. -/
structure Param where
  name : String
  type_token : String
  value : ParamValue := .none
  default : ParamValue := .none
  ref : Option String := none
  description : Option String := none
  deriving Repr

def Param.fields :=
  Fields.required "name" nonblank_text <|
  Fields.required "type_token" nonblank_text <|
  Fields.optional "value" .none ParamValue.codec ParamValue.none_checked <|
  Fields.optional "default" .none ParamValue.codec ParamValue.none_checked <|
  Fields.optional "ref" none optional_text no_text_valid <|
  Fields.optional "description" none optional_text no_text_valid <|
  Fields.nil

@[mk_iff] structure Param.Checked (p : Param) : Prop where
  name : nonblank p.name = true
  type_token : nonblank p.type_token = true
  value : p.value.Checked
  default : p.default.Checked

@[mk_iff] structure Param.Finite (p : Param) : Prop where
  value : p.value.Finite
  default : p.default.Finite

def Param.codec : Codec Param :=
  ((Param.fields.object (by simp [fields])).iso
    (fun (name, type_token, value, default, ref, description, _) =>
      { name, type_token, value, default, ref, description })
    (fun p => (p.name, p.type_token, p.value, p.default, p.ref, p.description, .unit))
    (fun _ => rfl) (fun _ => rfl)).reword Param.Checked Param.Finite
    (fun p => by simp [fields, checked_iff]) (fun p => by simp [fields, finite_iff])

@[simp] theorem Param.codec_valid (p : Param) : Param.codec.valid p ↔ p.Checked := Iff.rfl

@[simp] theorem Param.codec_expressible (p : Param) : Param.codec.expressible p ↔ p.Finite :=
  Iff.rfl

def params_codec : Codec (List Param) :=
  .list (fun _ => Param.codec) Param.codec.encode (fun _ => rfl) Param.Checked Param.Finite
    (fun _ => rfl) (fun _ => rfl)

@[simp] theorem params_codec_valid (ps : List Param) :
    params_codec.valid ps ↔ ∀ p ∈ ps, p.Checked := Iff.rfl

@[simp] theorem params_codec_expressible (ps : List Param) :
    params_codec.expressible ps ↔ ∀ p ∈ ps, p.Finite := Iff.rfl

theorem params_codec_nil : params_codec.valid [] := nofun

def ports_codec (co : Coercions) (place : Place) : Codec (List Port) :=
  .list (fun i => Port.codec co (place ++ ["ports", toString i])) (Port.codec co place).encode
    (fun _ => rfl) Port.Checked (fun _ => True) (fun _ => rfl) (fun _ => rfl)

@[simp] theorem ports_codec_valid (co : Coercions) (place : Place) (ps : List Port) :
    (ports_codec co place).valid ps ↔ ∀ p ∈ ps, p.Checked := Iff.rfl

@[simp] theorem ports_codec_expressible (co : Coercions) (place : Place) (ps : List Port) :
    (ports_codec co place).expressible ps := fun _ _ => trivial

theorem ports_codec_nil (co : Coercions) (place : Place) : (ports_codec co place).valid [] :=
  nofun

/-! ## Nodes -/

/-- Canvas coordinates as they are loaded. -/
structure Position where
  x : JsonFloat := .finite 0
  y : JsonFloat := .finite 0
  deriving DecidableEq, Repr

def Position.fields (co : Coercions) :=
  Fields.optional "x" (.finite 0) co.float_codec (co.float_codec_valid _) <|
  Fields.optional "y" (.finite 0) co.float_codec (co.float_codec_valid _) <|
  Fields.nil

@[mk_iff] structure Position.Finite (p : Position) : Prop where
  x : float_is_finite p.x = true
  y : float_is_finite p.y = true

def Position.codec (co : Coercions) : Codec Position :=
  (((Position.fields co).object (by simp [fields])).iso
    (fun (x, y, _) => { x, y }) (fun p => (p.x, p.y, .unit))
    (fun _ => rfl) (fun _ => rfl)).reword (fun _ => True) Position.Finite
    (fun p => by simp [fields]) (fun p => by simp [fields, finite_iff])

def Position.dump (p : Position) : Json :=
  .obj [("x", dump_float p.x), ("y", dump_float p.y)]

@[simp] theorem Position.codec_valid (co : Coercions) (p : Position) :
    (Position.codec co).valid p := trivial

@[simp] theorem Position.codec_expressible (co : Coercions) (p : Position) :
    (Position.codec co).expressible p ↔ p.Finite := Iff.rfl

/-- A node as it is loaded, owning an inner graph of type `Sub` or none. -/
structure Node (Sub : Type) where
  id : String
  type : String
  label : Option String := none
  paradigm : Paradigm := .FUNCTIONAL
  params : List Param := []
  ports : List Port := []
  position : Position := {}
  group_id : Option String := none
  subgraph : Option Sub := none

/-- A model that sits in others: it is read by its place in the document, and
everywhere written alike. -/
structure Model (α : Type) where
  codec : Place → Codec α
  Checked : α → Prop
  Finite : α → Prop
  dump : α → Json
  valid_iff : ∀ place a, (codec place).valid a ↔ Checked a
  expressible_iff : ∀ place a, (codec place).expressible a ↔ Finite a
  encode_eq : ∀ place a, (codec place).encode a = dump a
  dump_ne_null : ∀ a, dump a ≠ .null

attribute [simp] Model.valid_iff Model.expressible_iff Model.encode_eq Model.dump_ne_null

variable {Sub : Type}

def Node.fields (co : Coercions) (sub : Model Sub) (place : Place) :=
  Fields.optional "id" (co.new_id place) Codec.str (co.new_id_valid place) <|
  Fields.required "type" nonblank_text <|
  Fields.optional "label" none optional_text no_text_valid <|
  Fields.optional "paradigm" .FUNCTIONAL Paradigm.codec (Paradigm.codec_valid _) <|
  Fields.optional "params" [] (params_codec) (params_codec_nil) <|
  Fields.optional "ports" [] (ports_codec co place) (ports_codec_nil co place) <|
  Fields.optional "position" {} (Position.codec co) (Position.codec_valid ..) <|
  Fields.optional "group_id" none optional_text no_text_valid <|
  Fields.optional "subgraph" none (sub.codec (place ++ ["subgraph"])).nullable
    (Codec.valid_nullable_none _) <|
  Fields.nil

/-- What the validator guarantees of a node. -/
@[mk_iff] structure Node.Checked (sub : Model Sub) (n : Node Sub) : Prop where
  type : nonblank n.type = true
  params : ∀ p ∈ n.params, p.Checked
  ports : ∀ p ∈ n.ports, p.Checked
  subgraph : ∀ s, n.subgraph = some s → sub.Checked s

@[mk_iff] structure Node.Finite (sub : Model Sub) (n : Node Sub) : Prop where
  params : ∀ p ∈ n.params, p.Finite
  position : n.position.Finite
  subgraph : ∀ s, n.subgraph = some s → sub.Finite s

def Node.codec (co : Coercions) (sub : Model Sub) (place : Place) : Codec (Node Sub) :=
  (((Node.fields co sub place).object (by simp [fields])).iso
    (fun (id, type, label, paradigm, params, ports, position, group_id, subgraph, _) =>
      { id, type, label, paradigm, params, ports, position, group_id, subgraph })
    (fun n => (n.id, n.type, n.label, n.paradigm, n.params, n.ports, n.position, n.group_id,
      n.subgraph, .unit))
    (fun _ => rfl) (fun _ => rfl)).reword (Node.Checked sub) (Node.Finite sub)
    (fun n => by simp [fields, checked_iff]) (fun n => by simp [fields, finite_iff])

@[simp] theorem Node.codec_valid (co : Coercions) (sub : Model Sub) (place : Place)
    (n : Node Sub) : (Node.codec co sub place).valid n ↔ n.Checked sub := Iff.rfl

@[simp] theorem Node.codec_expressible (co : Coercions) (sub : Model Sub) (place : Place)
    (n : Node Sub) : (Node.codec co sub place).expressible n ↔ n.Finite sub := Iff.rfl

/-- A node as it is written, its inner graph by `dump`. -/
def Node.dump (dump : Sub → Json) (n : Node Sub) : Json :=
  .obj [("id", .str n.id), ("type", .str n.type), ("label", optional_text.encode n.label),
    ("paradigm", Paradigm.codec.encode n.paradigm), ("params", params_codec.encode n.params),
    ("ports", .arr (n.ports.map Port.dump)), ("position", n.position.dump),
    ("group_id", optional_text.encode n.group_id),
    ("subgraph", (n.subgraph.map dump).getD .null)]

theorem Node.codec_encode (co : Coercions) (sub : Model Sub) (place : Place) (n : Node Sub) :
    (Node.codec co sub place).encode n = n.dump sub.dump := by
  rw [← funext (sub.encode_eq (place ++ ["subgraph"]))]
  rfl

/-! ## Graphs -/

/-- `CURRENT_SCHEMA_VERSION`. -/
def CURRENT_SCHEMA_VERSION : Int := 2

/-- The graph as it is loaded. -/
structure Graph (Sub : Type) where
  schema_version : Int := CURRENT_SCHEMA_VERSION
  paradigm : Paradigm := .FUNCTIONAL
  name : Option String := none
  nodes : Dict String (Node Sub) := Dict.empty
  edges : Dict String Edge := Dict.empty
  params : Dict String Param := Dict.empty

/-- All that the structural validator looks at. -/
def Graph.skeleton (g : Graph Sub) : EmergentFlow.Graph Empty where
  nodes := g.nodes.mapValues fun _ n =>
    { id := n.id, type := n.type, ports := n.ports, group_id := n.group_id }
  edges := g.edges
  params := g.params.mapValues fun _ p => { name := p.name, type_token := p.type_token }

/-- `Graph._validate_structure` raises nothing. -/
def Graph.structured (g : Graph Sub) : Bool := g.skeleton.validate_structure.isOk

theorem Graph.structured_iff {g : Graph Sub} : g.structured = true ↔ g.skeleton.Valid := by
  rw [← Graph.validate_structure_eq_ok, structured]
  cases g.skeleton.validate_structure <;> simp [Except.isOk, Except.toBool]

def Graph.fields (co : Coercions) (sub : Model Sub) (place : Place) :=
  Fields.optional "schema_version" CURRENT_SCHEMA_VERSION co.int_codec (co.int_codec_valid _) <|
  Fields.optional "paradigm" .FUNCTIONAL Paradigm.codec (Paradigm.codec_valid _) <|
  Fields.optional "name" none optional_text no_text_valid <|
  Fields.optional "nodes" Dict.empty
    (Codec.dict fun key => Node.codec co sub (place ++ ["nodes", key]))
    (Codec.valid_dict_empty _) <|
  Fields.optional "edges" Dict.empty
    (Codec.dict fun key => Edge.codec co (place ++ ["edges", key]))
    (Codec.valid_dict_empty _) <|
  Fields.optional "params" Dict.empty (Codec.dict fun _ => Param.codec)
    (Codec.valid_dict_empty _) <|
  Fields.nil

/-- What the validator guarantees of a graph. -/
@[mk_iff] structure Graph.Checked (sub : Model Sub) (g : Graph Sub) : Prop where
  nodes : ∀ key n, g.nodes.get? key = some n → n.Checked sub
  edges : ∀ key e, g.edges.get? key = some e → e.Checked
  params : ∀ key p, g.params.get? key = some p → p.Checked
  structured : g.skeleton.Valid

@[mk_iff] structure Graph.Finite (sub : Model Sub) (g : Graph Sub) : Prop where
  nodes : ∀ key n, g.nodes.get? key = some n → n.Finite sub
  params : ∀ key p, g.params.get? key = some p → p.Finite

def Graph.codec (co : Coercions) (sub : Model Sub) (place : Place) : Codec (Graph Sub) :=
  ((((Graph.fields co sub place).object (by simp [fields])).iso
    (fun (schema_version, paradigm, name, nodes, edges, params, _) =>
      { schema_version, paradigm, name, nodes, edges, params })
    (fun g => (g.schema_version, g.paradigm, g.name, g.nodes, g.edges, g.params, .unit))
    (fun _ => rfl) (fun _ => rfl)).refine Graph.structured).reword
      (Graph.Checked sub) (Graph.Finite sub)
    (fun g => by simp [fields, checked_iff, structured_iff, and_assoc])
    (fun g => by simp [fields, finite_iff])

@[simp] theorem Graph.codec_valid (co : Coercions) (sub : Model Sub) (place : Place)
    (g : Graph Sub) : (Graph.codec co sub place).valid g ↔ g.Checked sub := Iff.rfl

@[simp] theorem Graph.codec_expressible (co : Coercions) (sub : Model Sub) (place : Place)
    (g : Graph Sub) : (Graph.codec co sub place).expressible g ↔ g.Finite sub := Iff.rfl

/-- The members of a graph as it is written, its inner graphs by `dump`. -/
def Graph.members (dump : Sub → Json) (g : Graph Sub) : List (String × Json) :=
  [("schema_version", .int g.schema_version), ("paradigm", Paradigm.codec.encode g.paradigm),
    ("name", optional_text.encode g.name),
    ("nodes", .obj (g.nodes.entries.map fun m => (m.1, m.2.dump dump))),
    ("edges", .obj (g.edges.entries.map fun m => (m.1, m.2.dump))),
    ("params", .obj (g.params.entries.map fun m => (m.1, Param.codec.encode m.2)))]

def Graph.dump (dump : Sub → Json) (g : Graph Sub) : Json := .obj (g.members dump)

theorem Graph.codec_encode (co : Coercions) (sub : Model Sub) (place : Place) (g : Graph Sub) :
    (Graph.codec co sub place).encode g = g.dump sub.dump := by
  show Json.obj [_, _, _, ("nodes", .obj (g.nodes.entries.map fun m =>
    (m.1, (Node.codec co sub (place ++ ["nodes", m.1])).encode m.2))), _, _] = _
  simp only [Node.codec_encode]
  rfl

/-- The model of a graph whose inner graphs have the model `sub`. -/
def Graph.model (co : Coercions) (sub : Model Sub) : Model (Graph Sub) where
  codec := Graph.codec co sub
  Checked := Graph.Checked sub
  Finite := Graph.Finite sub
  dump := Graph.dump sub.dump
  valid_iff := fun _ _ => Iff.rfl
  expressible_iff := fun _ _ => Iff.rfl
  encode_eq := Graph.codec_encode co sub
  dump_ne_null := nofun

/-- No graph at all, for what sits in the innermost nodes. -/
def Model.none : Model Empty where
  codec := fun _ => .coerced (fun _ => True) nofun (fun _ => Option.none) nofun
  Checked := fun _ => True
  Finite := fun _ => True
  dump := nofun
  valid_iff := nofun
  expressible_iff := nofun
  encode_eq := nofun
  dump_ne_null := nofun

/-- The inner graphs of a graph nested at most `n` deep. -/
def Loaded : Nat → Type
  | 0 => Empty
  | n + 1 => Graph (Loaded n)

def Loaded.model (co : Coercions) : (n : Nat) → Model (Loaded n)
  | 0 => Model.none
  | n + 1 => Graph.model co (Loaded.model co n)

end EmergentFlow.Wire
