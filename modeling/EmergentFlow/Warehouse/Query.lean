import EmergentFlow.Lib.Transaction
import EmergentFlow.Lib.Checks

/-!
# Warehouse — Query

`ef.data.query` and the client it goes through
(`data/warehouse/query.py`, `data/warehouse/adapter_client.py`). The query
is checked and built here; the one effect is the adapter call of the
client, recorded as an `AdapterCall`.

The SQL library, the compiler of structured specs, the profile store with
its credentials and the adapters are parameters.
-/

namespace EmergentFlow

/-! ## The SQL library -/

/-- What is used of sqlglot. A text parses to statements, some of which may
be empty, or raises; `find` is the first node below a statement, itself
included, that is an instance of one of the classes. -/
structure Sqlglot (Stmt : Type) where
  known_dialect : String → Bool
  parse : (sql dialect : String) → Option (List (Option Stmt))
  type_name : Stmt → String
  isinstance : Stmt → String → Bool
  find : Stmt → List String → Option Stmt
  has_limit : Stmt → Bool
  set_limit : Stmt → Int → Stmt
  sql : Stmt → (dialect : String) → String

/-- Top-level statement types permitted under a read-only connection. -/
def READ_ONLY_ALLOWED : List String := ["Select", "Union", "Intersect", "Except"]

/-- Node types that mutate data or schema. -/
def READ_ONLY_FORBIDDEN : List String :=
  ["Insert", "Update", "Delete", "Merge", "Create", "Drop", "Alter", "Command", "Into"]

/-! ## Requests and results -/

structure QueryRequest where
  sql : String
  dialect : String
  connection : String
  params : List (String × String) := []
  max_rows : Option Int := none
  byte_scan_cap : Option Int := none
  read_only : Bool := true
  dry_run : Bool := false
  deriving DecidableEq, Repr

/-- The metadata of a query result; the frame is left out. -/
structure QueryResult where
  dialect : String
  row_count : Nat
  bytes_scanned : Option Int := none
  truncated : Bool := false

structure CostEstimate where
  dialect : String
  bytes_scanned : Option Int := none

/-- `dry_run_result`: an estimate as an empty result. -/
def dry_run_result (estimate : CostEstimate) : QueryResult :=
  { dialect := estimate.dialect, row_count := 0, bytes_scanned := estimate.bytes_scanned }

/-- What is read of a connection profile once its credentials are resolved. -/
structure ConnectionProfile where
  dialect : String
  write_enabled : Bool := false

inductive QueryError where
  | missing_client
  | not_exactly_one
  | unknown_dialect (dialect : String)
  | parse (dialect : String)
  | no_statement (sql : String)
  | not_permitted (type_name : String)
  | nested (type_name : String)
  | sqlglot
  | spec (message : String)
  | connection (message : String)
  | write_not_enabled (connection : String)
  | no_adapter (dialect : String)
  | adapter (message : String)
  | byte_scan_cap_exceeded (cap scanned : Int)
  deriving DecidableEq, Repr

/-! ## Building the request -/

section Build

variable {Stmt : Type} (sg : Sqlglot Stmt)

/-- The statements of a text, and nothing when it does not parse. -/
def Sqlglot.statements (sql dialect : String) : Option (List Stmt) :=
  (sg.parse sql dialect).map (·.filterMap id)

/-- The read-only check of one statement: its own type is permitted, and it
holds no node that writes. -/
def Sqlglot.check_statement (stmt : Stmt) : Except QueryError Unit := do
  Checks.guard (READ_ONLY_ALLOWED.any (sg.isinstance stmt))
    (.not_permitted (sg.type_name stmt).toUpper)
  match sg.find stmt READ_ONLY_FORBIDDEN with
  | some nested => .error (.nested (sg.type_name nested).toUpper)
  | none => .ok ()

/-- The read-only check of all statements of a text. -/
def Sqlglot.check_read_only (statements : List Stmt) (read_only : Bool) : Except QueryError Unit :=
  if read_only then statements.forM sg.check_statement else .ok ()

/-- `_validate_read_only_sql`. -/
def Sqlglot.validate_read_only_sql (sql dialect : String) (read_only : Bool) :
    Except QueryError String := do
  let statements ← Checks.require (sg.statements sql dialect) (.parse dialect)
  Checks.guard (!statements.isEmpty) (.no_statement sql)
  sg.check_read_only statements read_only
  return sql

/-- A statement with a limit: its own, or the one injected. -/
def Sqlglot.limited (max_rows : Int) (stmt : Stmt) : Stmt :=
  if sg.has_limit stmt then stmt else sg.set_limit stmt (max_rows + 1)

/-- `_inject_limit`. -/
def Sqlglot.inject_limit (sql dialect : String) (max_rows : Option Int) :
    Except QueryError String :=
  match max_rows with
  | none => .ok sql
  | some max_rows => do
      let statements ← Checks.require (sg.statements sql dialect) .sqlglot
      return "; ".intercalate (statements.map fun stmt => sg.sql (sg.limited max_rows stmt) dialect)

end Build

/-! ## The client -/

open Transaction

/-- The adapter of one dialect, as far as the client calls it. -/
structure Adapter where
  execute : QueryRequest → Except QueryError QueryResult
  dry_run : QueryRequest → Except QueryError CostEstimate

/-- `AdapterWarehouseClient`: its profiles with their credentials, and its
adapters by dialect. -/
structure AdapterClient where
  resolve : (connection : String) → Except QueryError ConnectionProfile
  adapters : (dialect : String) → Option Adapter

/-- A request that has reached the adapter of a dialect, to be executed or
to be explained. -/
structure AdapterCall where
  dialect : String
  explain : Bool
  request : QueryRequest
  deriving DecidableEq, Repr

/-- A call that may reach adapters. -/
abbrev WarehouseM := Transaction (List AdapterCall) QueryError

namespace AdapterClient

/-- `_adapter_for`. -/
def adapter_for (client : AdapterClient) (dialect : String) : Except QueryError Adapter :=
  Checks.require (client.adapters dialect) (.no_adapter dialect)

def dry_run (client : AdapterClient) (request : QueryRequest) : WarehouseM CostEstimate := do
  let profile ← lift (client.resolve request.connection)
  let adapter ← lift (client.adapter_for profile.dialect)
  write (· ++ [⟨profile.dialect, true, request⟩])
  lift (adapter.dry_run request)

/-- `enforce_byte_scan_cap`. -/
def enforce_byte_scan_cap (request : QueryRequest) (result : QueryResult) : Except QueryError Unit :=
  match request.byte_scan_cap, result.bytes_scanned with
  | some cap, some scanned =>
      Checks.guard (scanned ≤ cap) (.byte_scan_cap_exceeded cap scanned)
  | _, _ => .ok ()

/-- The part of `run` behind the dry run. -/
def execute (client : AdapterClient) (request : QueryRequest) : WarehouseM QueryResult := do
  let profile ← lift (client.resolve request.connection)
  check (request.read_only || profile.write_enabled) (.write_not_enabled request.connection)
  let adapter ← lift (client.adapter_for profile.dialect)
  write (· ++ [⟨profile.dialect, false, request⟩])
  let result ← lift (adapter.execute request)
  lift (enforce_byte_scan_cap request result)
  return result

def run (client : AdapterClient) (request : QueryRequest) : WarehouseM QueryResult :=
  if request.dry_run then dry_run_result <$> client.dry_run request else client.execute request

end AdapterClient

/-! ## The query -/

/-- The keyword arguments of `ef.data.query`. -/
structure QueryArgs (Spec : Type) where
  connection : String
  dialect : String
  sql : Option String := none
  spec : Option Spec := none
  max_rows : Option Int := none
  byte_scan_cap : Option Int := none
  read_only : Bool := true
  dry_run : Bool := false

variable {Stmt Spec : Type}

/-- The SQL of the request: the caller's, checked, or that of the spec. -/
def QueryArgs.compiled_sql (args : QueryArgs Spec) (sg : Sqlglot Stmt)
    (compile_spec : Spec → String → Except QueryError String) : Except QueryError String :=
  match args.sql, args.spec with
  | some sql, none => do
      Checks.guard (sg.known_dialect args.dialect) (.unknown_dialect args.dialect)
      let validated ← sg.validate_read_only_sql sql args.dialect args.read_only
      sg.inject_limit validated args.dialect args.max_rows
  | none, some spec => do
      Checks.guard (sg.known_dialect args.dialect) (.unknown_dialect args.dialect)
      let compiled ← compile_spec spec args.dialect
      sg.inject_limit compiled args.dialect args.max_rows
  | _, _ => .error .not_exactly_one

def QueryArgs.request (args : QueryArgs Spec) (sql : String) : QueryRequest where
  sql := sql
  dialect := args.dialect
  connection := args.connection
  max_rows := args.max_rows
  byte_scan_cap := args.byte_scan_cap
  read_only := args.read_only
  dry_run := args.dry_run

/-- `query`. -/
def query (sg : Sqlglot Stmt) (compile_spec : Spec → String → Except QueryError String)
    (client : Option AdapterClient) (args : QueryArgs Spec) : WarehouseM QueryResult := do
  let client ← lift (Checks.require client .missing_client)
  let sql ← lift (args.compiled_sql sg compile_spec)
  client.run (args.request sql)

/-- What a query sends to adapters. -/
def sent (sg : Sqlglot Stmt) (compile_spec : Spec → String → Except QueryError String)
    (client : Option AdapterClient) (args : QueryArgs Spec) : List AdapterCall :=
  (query sg compile_spec client args []).2

end EmergentFlow
