import EmergentFlow.Codegen.Wiring
import EmergentFlow.Server.Flows

/-!
# Codegen — Naming

The variable names of the emitted program (`codegen/naming.py`): one for
every OUT port of the graph, and one for every graph param. The NFKD form of
a text and the BLAKE2s digest of one are parameters.
-/

namespace EmergentFlow.Naming

/-! ## Words -/

/-- `keyword.kwlist`. -/
def KEYWORDS : List String :=
  ["False", "None", "True", "and", "as", "assert", "async", "await", "break", "class", "continue",
    "def", "del", "elif", "else", "except", "finally", "for", "from", "global", "if", "import",
    "in", "is", "lambda", "nonlocal", "not", "or", "pass", "raise", "return", "try", "while",
    "with", "yield"]

/-- `keyword.softkwlist`. -/
def SOFT_KEYWORDS : List String := ["_", "case", "match"]

/-- `_AVOID_BUILTINS`. -/
def AVOID_BUILTINS : List String :=
  ["id", "type", "list", "dict", "set", "str", "int", "float", "bool", "sum", "min", "max",
    "filter", "map", "input", "format", "object", "bytes", "tuple", "range", "len", "open", "vars",
    "hash", "next", "iter", "sorted", "print"]

/-- `_MAIN_RESERVED_NAMES`. -/
def MAIN_RESERVED_NAMES : List String := ["clients", "client", "warehouse", "http"]

/-! ## Slugs and identifiers -/

/-- The loop of `_slugify`: letters and digits stay, a run of others becomes
one underscore; `prev` says whether the last was one. -/
def underscored (prev : Bool) : List Char → List Char
  | [] => []
  | ch :: rest =>
      if is_slug_char ch then ch :: underscored false rest
      else if prev then underscored true rest
      else '_' :: underscored true rest

/-- `_slugify`. -/
def slugify (nfkd : String → String) (text : String) : String :=
  let ascii_text := (nfkd text).toList.filter fun c => c.toNat < 128
  let chars := underscored false (ascii_text.map Char.toLower)
  String.ofList ((chars.dropWhile (· = '_')).rdropWhile (· = '_'))

/-- `slug[0].isdigit()`. -/
def starts_with_digit (slug : String) : Bool :=
  match slug.toList with
  | [] => false
  | c :: _ => '0' ≤ c && c ≤ '9'

/-- A keyword, a soft keyword or a builtin. -/
def shadows (slug : String) : Bool :=
  slug ∈ KEYWORDS || slug ∈ SOFT_KEYWORDS || slug ∈ AVOID_BUILTINS

/-- `_sanitize_identifier`. -/
def sanitize_identifier (slug : String) : String :=
  if slug = "" then ""
  else
    let slug := if starts_with_digit slug then "_" ++ slug else slug
    if shadows slug then slug ++ "_" else slug

/-- A sanitized slug, or what stands for an empty one. -/
def identifier_or (nfkd : String → String) (text fallback : String) : String :=
  let name := sanitize_identifier (slugify nfkd text)
  if name = "" then fallback else name

/-! ## Hash suffixes -/

def hex_digit (d : Fin 16) : Char :=
  ['0', '1', '2', '3', '4', '5', '6', '7', '8', '9', 'a', 'b', 'c', 'd', 'e', 'f'].get d

/-- `hashlib.blake2s(…, digest_size=8).hexdigest()`, sixteen digits. -/
abbrev Blake2s : Type := String → { digits : List (Fin 16) // digits.length = 16 }

/-- `_hash_suffix`. -/
def hash_suffix (blake2s : Blake2s) (node_id port_id : String) (length : Nat) : String :=
  String.ofList (((blake2s (node_id ++ ":" ++ port_id)).1.map hex_digit).take length)

/-! ## OUT ports -/

variable {Sub : Type}

/-- `_base_name`. -/
def base_name (nfkd : String → String) (node : Node Sub) : String :=
  let label := String.ofList (py_strip (node.label.getD "").toList)
  let base := if label = "" then "" else sanitize_identifier (slugify nfkd label)
  if base = "" then identifier_or nfkd node.type "node" else base

/-- An OUT port with the name it would have alone. -/
structure PortEntry where
  node_id : String
  port_id : String
  candidate : String
  deriving DecidableEq

/-- The OUT port of an entry. -/
def PortEntry.key (e : PortEntry) : String × String := (e.node_id, e.port_id)

/-- Pass 1 of `build_name_map`. -/
def port_entries (nfkd : String → String) (graph : Graph Sub) : List PortEntry :=
  graph.sorted_nodes.flatMap fun node =>
    node.out_ports.map fun port =>
      ⟨node.id, port.id, base_name nfkd node ++ "_" ++ identifier_or nfkd port.name "out"⟩

section Entries

variable (blake2s : Blake2s) (entries : List PortEntry) (reserved : List String)

/-- Pass 2: another port has the candidate too, or it is reserved. -/
def collides (e : PortEntry) : Bool :=
  entries.countP (·.candidate = e.candidate) ≠ 1 || e.candidate ∈ reserved

/-- The name with a suffix. -/
def suffixed (length : Nat) (e : PortEntry) : String :=
  e.candidate ++ "_" ++ hash_suffix blake2s e.node_id e.port_id length

/-- What pass 3 looks for: the suffixed names are distinct, and none of them
is the name of a port without a suffix. -/
def separates (length : Nat) : Bool :=
  let names := (entries.filter (collides entries reserved)).map (suffixed blake2s length)
  names.Nodup && names.all fun name =>
    (entries.filter fun e => !collides entries reserved e).all fun e => e.candidate ≠ name

/-- The length at which the loop of pass 3 stops, 17 if it runs out. -/
def suffix_length : Nat :=
  ((List.range' 4 13).find? (separates blake2s entries reserved)).getD 17

/-- Pass 4: the name of a port. -/
def var_name (e : PortEntry) : String :=
  if collides entries reserved e then suffixed blake2s (suffix_length blake2s entries reserved) e
  else e.candidate

end Entries

structure OutBinding where
  node_id : String
  port_id : String
  var_name : String
  deriving DecidableEq

/-- `build_name_map`. -/
def build_name_map (nfkd : String → String) (blake2s : Blake2s) (graph : Graph Sub)
    (reserved_names : List String) : List OutBinding :=
  let entries := port_entries nfkd graph
  entries.map fun e => ⟨e.node_id, e.port_id, var_name blake2s entries reserved_names e⟩

/-! ## Graph params -/

section Params

variable (nfkd : String → String) (blake2s : Blake2s)

/-- The names that a param may get, in the order in which they are tried. -/
def param_candidates (pname : String) : List String :=
  let base := identifier_or nfkd pname "param"
  base :: (List.range' 4 13).map fun length =>
    base ++ "_" ++ hash_suffix blake2s pname "gparam" length

/-- The first that is not taken; the last if all are. -/
def pick_name (taken : List String) (pname : String) : String :=
  ((param_candidates nfkd blake2s pname).find? (· ∉ taken)).getD
    (identifier_or nfkd pname "param" ++ "_" ++ hash_suffix blake2s pname "gparam" 16)

/-- The loop of `build_graph_param_names`. -/
def name_params (taken : List String) : List String → List (String × String)
  | [] => []
  | pname :: rest =>
      let name := pick_name nfkd blake2s taken pname
      (pname, name) :: name_params (name :: taken) rest

/-- The names taken before any param is named. -/
def taken_names (name_map : List OutBinding) : List String :=
  name_map.map (·.var_name) ++ MAIN_RESERVED_NAMES

/-- `sorted(graph.params)`. -/
def sorted_params (graph : Graph Sub) : List String := graph.params.keys.insertionSort (· ≤ ·)

/-- `build_graph_param_names`. -/
def build_graph_param_names (graph : Graph Sub) (name_map : List OutBinding) :
    List (String × String) :=
  name_params nfkd blake2s (taken_names name_map) (sorted_params graph)

end Params

end EmergentFlow.Naming
