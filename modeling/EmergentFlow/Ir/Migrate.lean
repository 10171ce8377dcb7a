import EmergentFlow.Ir.GraphDocument

/-!
# Ir — Migrate

Schema migration of a parsed graph document (`emergentflow/ir/migrate.py`) and
the walk over its inner graphs (`_iter_subgraph_dicts` in
`emergentflow/ir/serialize.py`). Both recurse once for each level of nested
graphs; how many levels the interpreter's stack has room for is given.
-/

namespace EmergentFlow.Wire

/-- A dictionary of a parsed document. -/
abbrev Members := List (String × Json)

/-! ## The walk over the inner graphs -/

/-- The inner graph that a node of the document owns, if it is a dictionary. -/
def subgraph_dict (node : Json) : Option Members :=
  match node.get? "subgraph" with
  | some (.obj sub) => some sub
  | _ => none

/-- The inner graphs of one level, in order. -/
def subgraph_dicts (doc : Members) : List Members :=
  match doc.lookup "nodes" with
  | some (.obj nodes) => nodes.filterMap fun m => subgraph_dict m.2
  | _ => []

/-- `_iter_subgraph_dicts`; `none` where the stack ends. -/
def iter_subgraph_dicts : Nat → Members → List (Option Members)
  | 0, _ => [none]
  | room + 1, doc =>
      (subgraph_dicts doc).flatMap fun sub => some sub :: iter_subgraph_dicts room sub

/-! ## Migration steps -/

/-- `INITIAL_SCHEMA_VERSION`. -/
def INITIAL_SCHEMA_VERSION : Int := 1

inductive MigrateError where
  | MigrationError
  | TypeError
  | RecursionError
  deriving DecidableEq, Repr

/-- `_migrate_v0_to_v1`: the key `mode` becomes `paradigm`. -/
def migrate_v0_to_v1 (doc : Members) : Members :=
  match doc.lookup "mode" with
  | some paradigm => Dict.setL "paradigm" paradigm (Dict.eraseL "mode" doc)
  | none => doc

/-- `_migrate_v1_to_v2`: the key `params` is there. -/
def migrate_v1_to_v2 (doc : Members) : Members :=
  match doc.lookup "params" with
  | some _ => doc
  | none => Dict.setL "params" (.obj []) doc

/-- `_MIGRATIONS`, the registered steps. -/
def migrations (v : Int) : Option (Members → Members) :=
  if v = 0 then some migrate_v0_to_v1 else if v = 1 then some migrate_v1_to_v2 else none

/-- The loop of `migrate_to_current`, `n` versions from `v` on. -/
def migrate_steps : Nat → Int → Members → Except MigrateError Members
  | 0, _, doc => .ok doc
  | n + 1, v, doc =>
      match migrations v with
      | none => .error .MigrationError
      | some step => migrate_steps n (v + 1) (Dict.setL "schema_version" (.int (v + 1)) (step doc))

/-- `migrate_to_current` for a whole number. -/
def migrate_to_current (doc : Members) (found : Int) : Except MigrateError Members :=
  if found = CURRENT_SCHEMA_VERSION then .ok doc
  else if CURRENT_SCHEMA_VERSION < found then .error .MigrationError
  else migrate_steps (CURRENT_SCHEMA_VERSION - found).toNat found doc

/-- `migrate_to_current` for whatever the document calls its version: what
does not compare with a number or makes no range is a `TypeError`. -/
def migrate_found (doc : Members) : Json → Except MigrateError Members
  | .int found => migrate_to_current doc found
  | .bool found => migrate_to_current doc (if found then 1 else 0)
  | .float (.finite x) =>
      if x = 2 then .ok doc else .error (if 2 < x then .MigrationError else .TypeError)
  | .float (.infinity false) => .error .MigrationError
  | _ => .error .TypeError

/-- `g.get("schema_version", INITIAL_SCHEMA_VERSION)`. -/
def found_version (doc : Members) : Json :=
  (doc.lookup "schema_version").getD (.int INITIAL_SCHEMA_VERSION)

/-- `_migrate_node`, inner graphs by `level`. -/
def migrate_node (level : Members → Except MigrateError Members) (node : Json) :
    Except MigrateError Json :=
  match node with
  | .obj members =>
      match members.lookup "subgraph" with
      | some (.obj sub) =>
          (level sub).map fun sub => .obj (Dict.setL "subgraph" (.obj sub) members)
      | _ => .ok node
  | _ => .ok node

/-- The nodes of one level, rebuilt in place. -/
def migrate_nodes (level : Members → Except MigrateError Members) (doc : Members) :
    Except MigrateError Members :=
  match doc.lookup "nodes" with
  | some (.obj nodes) =>
      (nodes.mapM fun m => (migrate_node level m.2).map (m.1, ·)).map fun nodes =>
        Dict.setL "nodes" (.obj nodes) doc
  | _ => .ok doc

/-- `_migrate_graph_level` with room for that many levels. -/
def migrate_graph_level : Nat → Members → Except MigrateError Members
  | 0, _ => .error .RecursionError
  | room + 1, doc => do
      let doc ← migrate_found doc (found_version doc)
      migrate_nodes (migrate_graph_level room) doc

end EmergentFlow.Wire
