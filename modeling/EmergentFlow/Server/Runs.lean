import EmergentFlow.Lib.Dict
import EmergentFlow.Lib.Json
import EmergentFlow.Lib.Transaction

/-!
# Server — Runs

The store of execution runs (`server/runs.py`): a directory of three JSON
files under each run id, of which the oldest are evicted after each save.
Only `list` is left out.

What the store reads of the world, the clock, the random part of an id, the
order in which a directory is listed and which calls of the file system
fail, is given with each call. A temporary file is never seen: it has no
name of a file of a run. What is written is the document itself:
`json.loads(json.dumps(data, indent=2))` is `data`.
-/

namespace EmergentFlow

/-! ## Run ids -/

/-- The zeros of the decimal digits, which `\d` matches (Unicode 14). -/
def decimal_zeros : List Nat :=
  [0x30, 0x660, 0x6F0, 0x7C0, 0x966, 0x9E6, 0xA66, 0xAE6, 0xB66, 0xBE6, 0xC66, 0xCE6, 0xD66, 0xDE6,
    0xE50, 0xED0, 0xF20, 0x1040, 0x1090, 0x17E0, 0x1810, 0x1946, 0x19D0, 0x1A80, 0x1A90, 0x1B50,
    0x1BB0, 0x1C40, 0x1C50, 0xA620, 0xA8D0, 0xA900, 0xA9D0, 0xA9F0, 0xAA50, 0xABF0, 0xFF10, 0x104A0,
    0x10D30, 0x11066, 0x110F0, 0x11136, 0x111D0, 0x112F0, 0x11450, 0x114D0, 0x11650, 0x116C0,
    0x11730, 0x118E0, 0x11950, 0x11C50, 0x11D50, 0x11DA0, 0x16A60, 0x16AC0, 0x16B50, 0x1D7CE,
    0x1D7D8, 0x1D7E2, 0x1D7EC, 0x1D7F6, 0x1E140, 0x1E2F0, 0x1E950, 0x1FBF0]

/-- `\d`. -/
def is_decimal (c : Char) : Bool :=
  decimal_zeros.any fun start => start ≤ c.toNat && c.toNat < start + 10

/-- `[a-f0-9]`. -/
def is_hex (c : Char) : Bool := ('a' ≤ c && c ≤ 'f') || ('0' ≤ c && c ≤ '9')

/-- The part of `_RUN_ID_RE` before the hash, `d` for a digit. -/
def run_id_stamp : List Char := "dddd-dd-ddTdd-dd-ddZ-".toList

/-- `_RUN_ID_RE.match`. The `$` also matches before a final newline. -/
def run_id_re (run_id : String) : Bool :=
  let chars := run_id.toList
  let hash := chars.drop run_id_stamp.length
  let hash := if hash.getLast? = some '\n' then hash.dropLast else hash
  (List.zipWith (fun p c => if p = 'd' then is_decimal c else p = c) run_id_stamp chars).all id &&
    !hash.isEmpty && hash.all is_hex

/-- An id the store accepts. -/
abbrev RunId : Type := { run_id : String // run_id_re run_id = true }

/-- `_generate_run_id`, of the time as it formats it and of the digest. -/
def generate_run_id (ts hexdigest : String) : String :=
  ts ++ "-" ++ String.ofList (hexdigest.toList.take 4)

/-! ## The store -/

inductive RunFile where
  | run
  | graph
  | payloads
  deriving DecidableEq, Repr

/-- The directory of a run. -/
structure RunDir where
  files : RunFile → Option Json := fun _ => none
  mtime : Int

structure RunStore where
  keep : Int
  runs : Dict RunId RunDir := Dict.empty

inductive RunError where
  | unknown_run (run_id : RunId)
  | invalid_run_id (run_id : String)
  | os_error
  /-- popping off an empty list -/
  | index_error
  deriving DecidableEq

/-- Where a call fails: before it has changed anything, in writing a file,
or in listing the runs. -/
inductive RunFault where
  | access
  | write (file : RunFile)
  | iterdir
  deriving DecidableEq, Repr

/-- What is left of a directory that cannot be removed. -/
structure Remains where
  stays : RunFile → Bool
  mtime : Int

/-- What a call finds. -/
structure RunEnv where
  ts : String := ""
  hexdigest : String := ""
  /-- the time of the last write -/
  clock : Int := 0
  fault : Option RunFault := none
  remains : RunId → Option Remains := fun _ => none
  /-- the place of a run in a listing -/
  rank : RunId → Nat := fun _ => 0
  stat_fails : RunId → Bool := fun _ => false

namespace RunStore

/-- `_run_dir`. -/
def run_dir (run_id : String) : Transaction RunStore RunError RunId :=
  if h : run_id_re run_id = true then pure ⟨run_id, h⟩ else .raise (.invalid_run_id run_id)

/-- Read one file of a run. -/
def read_file (file : RunFile) (run_id : String) : Transaction RunStore RunError Json := do
  let run_id ← run_dir run_id
  let s ← .read
  match (s.runs.get? run_id).bind (·.files file) with
  | none => .raise (.unknown_run run_id)
  | some data => pure data

def get : String → Transaction RunStore RunError Json := read_file .run

def get_graph : String → Transaction RunStore RunError Json := read_file .graph

def get_payloads : String → Transaction RunStore RunError Json := read_file .payloads

/-- `run_dir.mkdir(parents=True, exist_ok=True)`. -/
def mkdir (env : RunEnv) (run_id : RunId) (s : RunStore) : RunStore :=
  if s.runs.contains run_id then s
  else { s with runs := s.runs.set run_id { mtime := env.clock } }

/-- `shutil.rmtree(run_dir, ignore_errors=True)`. -/
def rmtree (env : RunEnv) (run_id : RunId) (s : RunStore) : RunStore :=
  match env.remains run_id with
  | none => { s with runs := s.runs.erase run_id }
  | some remains =>
      { s with runs := s.runs.modify run_id fun dir =>
          ⟨fun file => if remains.stays file then dir.files file else none, remains.mtime⟩ }

/-- `_write_json_atomic`. -/
def write_json_atomic (env : RunEnv) (run_id : RunId) (file : RunFile) (data : Json) :
    Transaction RunStore RunError Unit := do
  .check (env.fault ≠ some (.write file)) .os_error
  .write fun s => { s with runs := s.runs.modify run_id fun dir =>
    ⟨Function.update dir.files file (some data), env.clock⟩ }

/-- `_PAYLOAD_SIZE_CAP`. -/
def PAYLOAD_SIZE_CAP : Nat := 100 * 1024

/-- A payload as it is saved. `json_size` is the length of a document in
UTF-8, `len(json.dumps(value).encode("utf-8"))`. -/
def cap_payload (json_size : Json → Nat) (value : Json) : Json :=
  if json_size value > PAYLOAD_SIZE_CAP then
    .obj [("kind", .str "truncated"), ("reason", .str "payload exceeded 100KB")]
  else value

/-- The document that `_write_payloads` writes. -/
def capped (json_size : Json → Nat) (payloads : Dict String (Dict String Json)) : Json :=
  .obj (payloads.mapValues fun _ ports =>
    Json.obj (ports.mapValues fun _ value => cap_payload json_size value).entries).entries

/-- The loop of `_evict` over the directories that are left, oldest first. -/
def evict_loop (env : RunEnv) (keep : Int) :
    List (RunId × RunDir) → Transaction RunStore RunError Unit
  | [] => .check (0 ≤ keep) .index_error
  | oldest_dir :: dirs => do
      if keep < dirs.length + 1 then do
        .write (rmtree env oldest_dir.1)
        evict_loop env keep dirs
      else pure ()

/-- The runs as `iterdir` yields them. -/
def iterdir (env : RunEnv) (s : RunStore) : List (RunId × RunDir) :=
  s.runs.entries.mergeSort fun a b => env.rank a.1 ≤ env.rank b.1

/-- The runs that `_evict` goes through, sorted by time. -/
def dirs (env : RunEnv) (s : RunStore) : List (RunId × RunDir) :=
  ((iterdir env s).filter fun child => !env.stat_fails child.1).mergeSort
    fun a b => a.2.mtime ≤ b.2.mtime

/-- `_evict`. -/
def evict (env : RunEnv) : Transaction RunStore RunError Unit := do
  .check (env.fault ≠ some .iterdir) .os_error
  let s ← .read
  evict_loop env s.keep (dirs env s)

/-- What `save` writes into each file. -/
def saved_files (json_size : Json → Nat) (run_id : RunId) (run_data graph_data : Dict String Json)
    (payloads_data : Dict String (Dict String Json)) : RunFile → Json
  | .run => .obj (run_data.set "run_id" (.str run_id.1)).entries
  | .graph => .obj graph_data.entries
  | .payloads => capped json_size payloads_data

/-- The part of `save` inside its `try`. -/
def write_files (env : RunEnv) (run_id : RunId) (files : RunFile → Json) :
    Transaction RunStore RunError Unit := do
  write_json_atomic env run_id .run (files .run)
  write_json_atomic env run_id .graph (files .graph)
  write_json_atomic env run_id .payloads (files .payloads)

/-- `save`. -/
def save (json_size : Json → Nat) (env : RunEnv) (run_data graph_data : Dict String Json)
    (payloads_data : Dict String (Dict String Json)) : Transaction RunStore RunError RunId := do
  let run_id ← run_dir (generate_run_id env.ts env.hexdigest)
  .check (env.fault ≠ some .access) .os_error
  .write (mkdir env run_id)
  .tryCatch
    (write_files env run_id (saved_files json_size run_id run_data graph_data payloads_data))
    (fun e => do
      .write (rmtree env run_id)
      .raise e)
  evict env
  pure run_id

/-- `delete`. Its `rmtree` raises when it cannot remove the directory. -/
def delete (env : RunEnv) (run_id : String) : Transaction RunStore RunError Unit := do
  let run_id ← run_dir run_id
  .check (env.fault ≠ some .access) .os_error
  let s ← .read
  .check (s.runs.contains run_id) (.unknown_run run_id)
  .write (rmtree env run_id)
  .check (env.remains run_id).isNone .os_error

end RunStore

/-! ## Calls -/

inductive RunRequest where
  | save (run_data graph_data : Dict String Json) (payloads_data : Dict String (Dict String Json))
  | delete (run_id : String)

structure RunCall where
  request : RunRequest
  env : RunEnv := {}

inductive RunResult where
  | saved (run_id : RunId)
  | deleted
  | error (e : RunError)
  deriving DecidableEq

/-- One call of the store. -/
def RunStore.call (json_size : Json → Nat) (s : RunStore) (c : RunCall) : RunResult × RunStore :=
  match c.request with
  | .save run_data graph_data payloads_data =>
      match save json_size c.env run_data graph_data payloads_data s with
      | (.ok run_id, s') => (.saved run_id, s')
      | (.error e, s') => (.error e, s')
  | .delete run_id =>
      match delete c.env run_id s with
      | (.ok (), s') => (.deleted, s')
      | (.error e, s') => (.error e, s')

end EmergentFlow
