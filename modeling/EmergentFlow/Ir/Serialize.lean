import EmergentFlow.Ir.Migrate

/-!
# Ir — Serialize

Graphs to JSON text and back (`emergentflow/ir/serialize.py`): parsing, the
version policy on every level of nested graphs, migration, validation, and
the reading of files. Every exception on the way is one of `Raised`; the two
that the module declares are the first.

The JSON parser and writer, the validator's recursion guard and the room on
the interpreter's stack are given. `n` bounds the nesting of the graphs spoken
of; what the guard lets through is nested less deep.
-/

namespace EmergentFlow.Wire

/-- What `json.loads` raises: malformed JSON, a number of too many digits, or
too deep a nesting. -/
inductive LoadsError where
  | JSONDecodeError
  | ValueError
  | RecursionError
  deriving DecidableEq, Repr

/-- What Python and its libraries do. -/
structure Runtime where
  coercions : Coercions
  loads : String → Except LoadsError Json
  /-- `to_json`; nothing where the writer itself fails. -/
  render : Json → Option String
  /-- The document is not nested too deep for the validator. -/
  within_guard : Members → Bool
  walk_room : Nat
  migrate_room : Nat

/-- Why a graph could not be deserialized. -/
inductive Reason where
  | not_json
  | not_an_object (type : String)
  | version_not_an_integer
  | failed_validation
  | could_not_read
  deriving DecidableEq, Repr

inductive Raised where
  | GraphDeserializationError (why : Reason)
  | SchemaVersionError (found expected : Int)
  | UnicodeDecodeError
  | ValueError
  | RecursionError
  | TypeError
  deriving DecidableEq, Repr

/-- `GraphDeserializationError` or a subclass. -/
def Raised.is_deserialization_error : Raised → Bool
  | .GraphDeserializationError _ => true
  | .SchemaVersionError _ _ => true
  | _ => false

/-! ## Version policy -/

/-- `_reject_if_newer`. -/
def reject_if_newer (found : Int) : Except Raised Unit :=
  Checks.guard (found ≤ CURRENT_SCHEMA_VERSION) (.SchemaVersionError found CURRENT_SCHEMA_VERSION)

/-- `_coerce_version`. -/
def coerce_version (doc : Members) : Except Raised Int :=
  match found_version doc with
  | .int found => .ok found
  | _ => .error (.GraphDeserializationError .version_not_an_integer)

/-- One round of the loop over the inner graphs. -/
def check_version : Option Members → Except Raised Unit
  | none => .error .RecursionError
  | some doc => coerce_version doc >>= reject_if_newer

/-! ## Serialize -/

/-- The model of the graphs nested at most `n` deep. -/
def graph_model (env : Runtime) (n : Nat) : Model (Graph (Loaded n)) :=
  Loaded.model env.coercions (n + 1)

/-- `serialize_graph`. -/
def serialize_graph (env : Runtime) {n : Nat} (g : Graph (Loaded n)) : Option String :=
  env.render ((graph_model env n).dump g)

/-! ## Deserialize -/

/-- `type(j).__name__`. -/
def type_name : Json → String
  | .null => "NoneType"
  | .bool _ => "bool"
  | .int _ => "int"
  | .float _ => "float"
  | .str _ => "str"
  | .arr _ => "list"
  | .obj _ => "dict"

/-- What is raised for an exception of the parser. -/
def raised_of_loads : LoadsError → Raised
  | .JSONDecodeError => .GraphDeserializationError .not_json
  | .ValueError => .ValueError
  | .RecursionError => .RecursionError

/-- What is raised for an exception of the migration. -/
def raised_of_migrate (found : Int) : MigrateError → Raised
  | .MigrationError => .SchemaVersionError found CURRENT_SCHEMA_VERSION
  | .TypeError => .TypeError
  | .RecursionError => .RecursionError

/-- The parsed document, if it is a dictionary. -/
def require_object : Json → Except Raised Members
  | .obj doc => .ok doc
  | j => .error (.GraphDeserializationError (.not_an_object (type_name j)))

/-- `Graph.model_validate`. -/
def model_validate (env : Runtime) (n : Nat) (doc : Members) : Option (Graph (Loaded n)) :=
  if env.within_guard doc then ((graph_model env n).codec []).decode (.obj doc) else none

/-- `deserialize_graph` from the parsed document on. -/
def deserialize_document (env : Runtime) (n : Nat) (doc : Members) :
    Except Raised (Graph (Loaded n)) := do
  let top_found ← coerce_version doc
  reject_if_newer top_found
  (iter_subgraph_dicts env.walk_room doc).forM check_version
  let migrated ← (migrate_graph_level env.migrate_room doc).mapError (raised_of_migrate top_found)
  Checks.require (model_validate env n migrated) (.GraphDeserializationError .failed_validation)

/-- `deserialize_graph`. -/
def deserialize_graph (env : Runtime) (n : Nat) (data : String) :
    Except Raised (Graph (Loaded n)) := do
  let parsed ← (env.loads data).mapError raised_of_loads
  let doc ← require_object parsed
  deserialize_document env n doc

/-! ## Files -/

/-- The newlines of a text file as Python reads them. -/
def universal_newlines : List Char → List Char
  | '\r' :: '\n' :: rest => '\n' :: universal_newlines rest
  | '\r' :: rest => '\n' :: universal_newlines rest
  | c :: rest => c :: universal_newlines rest
  | [] => []

/-- What `Path.read_text` makes of the bytes of a file; nothing where they are
not UTF-8. -/
def read_text (bytes : ByteArray) : Option String :=
  (String.fromUTF8? bytes).map fun s => String.ofList (universal_newlines s.toList)

/-- `load_graph` from a file of these bytes, or one that cannot be read. -/
def load_graph (env : Runtime) (n : Nat) (file : Option ByteArray) :
    Except Raised (Graph (Loaded n)) := do
  let bytes ← Checks.require file (.GraphDeserializationError .could_not_read)
  let raw ← Checks.require (read_text bytes) .UnicodeDecodeError
  deserialize_graph env n raw

end EmergentFlow.Wire
