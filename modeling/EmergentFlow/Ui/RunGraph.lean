import EmergentFlow.Lib.Dict
import EmergentFlow.Lib.Json
import EmergentFlow.Lib.Runs

/-!
# Ui — RunGraph

The streaming execute call of the canvas (`ui/src/exec/runGraph.ts`), the
store its events are applied to (`ui/src/store/executionStore.ts`) and the
replacements of the graph that clear that store
(`ui/src/store/graphStore.ts`). Every call that is under way is at an `await`,
and any of them may go on next.

`origin`, `replaced` and `writes` are bookkeeping of the model: how often the
graph had been replaced when a run started, how often it has been by now, and
what the runs have written to the store so far.
-/

namespace EmergentFlow.RunGraph

/-! ## The execution store -/

inductive NodeRunStatus where
  | ok
  | cached
  | error (error : String)
  | skipped (reason : Option String)
  deriving DecidableEq, Repr

structure ProgressState where
  current : Int
  total : Int
  label : String
  deriving DecidableEq, Repr

/-- `R` is a node's results: payloads by port. -/
structure ExecutionStore (R : Type) where
  running : Bool := false
  results : Dict String R := .empty
  statuses : Dict String NodeRunStatus := .empty
  error : Option String := none
  lastRunAt : Option Int := none
  progress : Option ProgressState := none

namespace ExecutionStore

variable {R : Type} (store : ExecutionStore R)

def setRunning : ExecutionStore R := { store with running := true, error := none, progress := none }

def setNodeStart (label : String) (current total : Int) : ExecutionStore R :=
  { store with progress := some ⟨current, total, label⟩ }

def setNodeResult (nodeId : String) (results : R) : ExecutionStore R :=
  { store with
    results := store.results.set nodeId results, statuses := store.statuses.set nodeId .ok }

def setNodeCached (nodeId : String) (results : R) : ExecutionStore R :=
  { store with
    results := store.results.set nodeId results, statuses := store.statuses.set nodeId .cached }

def setNodeError (nodeId error : String) : ExecutionStore R :=
  { store with statuses := store.statuses.set nodeId (.error error) }

/-- An empty reason is none. -/
def setNodeSkipped (nodeId : String) (reason : Option String) : ExecutionStore R :=
  { store with statuses := store.statuses.set nodeId (.skipped (reason.filter (· ≠ ""))) }

def setRunComplete (now : Int) : ExecutionStore R :=
  { store with running := false, error := none, lastRunAt := some now, progress := none }

def setError (message : String) : ExecutionStore R :=
  { store with running := false, error := some message, progress := none }

/-- `clear`: nothing of the store stays. -/
def clear : ExecutionStore R := {}

end ExecutionStore

/-! ## Calls -/

/-- One node or several. -/
inductive Scope where
  | one (id : String)
  | many (ids : List String)
  deriving DecidableEq, Repr

structure RunGraphOptions where
  runTo : Option Scope := none
  runFrom : Option Scope := none
  runOnly : Option Scope := none
  params : Option (List (String × Json)) := none

/-- A scope is sent unless it is an empty array. -/
def scopeEntry (key : String) (scope : Option Scope) : Option (String × Scope) :=
  (scope.filter (· ≠ .many [])).map (key, ·)

def RunGraphOptions.scopeEntries (options : RunGraphOptions) : List (String × Scope) :=
  (scopeEntry "run_to" options.runTo).toList ++ (scopeEntry "run_from" options.runFrom).toList ++
    (scopeEntry "run_only" options.runOnly).toList

/-- The body of the request: the graph alone, or with what goes with it. -/
inductive RunBody (G : Type) where
  | graph (graph : G)
  | run (graph : G) (scopes : List (String × Scope)) (params : List (String × Json))

def RunGraphOptions.body {G : Type} (options : RunGraphOptions) (graph : G) : RunBody G :=
  let scopes := options.scopeEntries
  let params := options.params.getD []
  if scopes.isEmpty && params.isEmpty then .graph graph else .run graph scopes params

/-! ## Streams -/

/-- What an event says; `other` is a type that the loop does not know. -/
inductive EventKind (R : Type) where
  | node_start (label : String) (current total : Int)
  | node_ok (node_id : String) (results : R) (cached : Bool)
  | node_error (node_id error : String)
  | node_skip (node_id : String) (reason : Option String)
  | run_complete
  | run_error (error : String)
  | other

structure StreamEvent (R : Type) where
  payload_version : Option Int
  kind : EventKind R

/-- How the server answers the request. -/
inductive Answer where
  | refused (message : String)
  | no_body
  | stream
  deriving DecidableEq, Repr

/-- What a call may be waiting for. `now` is the clock when an event comes. -/
inductive StreamInput (R : Type) where
  | answer (answer : Answer)
  | event (now : Int) (event : StreamEvent R)
  | close
  | throws (message : String)

/-- Where a call is. -/
inductive Phase where
  | fetching
  | reading (checkedVersion settled : Bool)
  | done
  deriving DecidableEq, Repr

def EXPECTED_PAYLOAD_VERSION : Int := 2

def version_error (version : Int) : String :=
  "Server payload version " ++ toString version ++ " is incompatible (expected " ++
    toString EXPECTED_PAYLOAD_VERSION ++ "). Restart the server or refresh the page."

section React

variable {R : Type}

/-- A change of the store, if there is one. -/
abbrev StoreUpdate (R : Type) : Type := Option (ExecutionStore R → ExecutionStore R)

/-- `fail`. -/
def fail (message : String) : StoreUpdate R := some fun store => store.setError message

/-- The `switch` over the events. -/
def handle (settled : Bool) (now : Int) : EventKind R → Phase × StoreUpdate R
  | .node_start label current total =>
      (.reading true settled, some fun store => store.setNodeStart label current total)
  | .node_ok node_id results true =>
      (.reading true settled, some fun store => store.setNodeCached node_id results)
  | .node_ok node_id results false =>
      (.reading true settled, some fun store => store.setNodeResult node_id results)
  | .node_error node_id error =>
      (.reading true settled, some fun store => store.setNodeError node_id error)
  | .node_skip node_id reason =>
      (.reading true settled, some fun store => store.setNodeSkipped node_id reason)
  | .run_complete => (.reading true true, some fun store => store.setRunComplete now)
  | .run_error error => (.reading true true, fail error)
  | .other => (.reading true settled, none)

/-- How a call goes on. -/
def react : Phase → StreamInput R → Phase × StoreUpdate R
  | .fetching, .answer (.refused message) => (.done, fail message)
  | .fetching, .answer .no_body => (.done, fail "Server response had no body")
  | .fetching, .answer .stream => (.reading false false, none)
  | .reading checkedVersion settled, .event now event =>
      -- the version is checked on the first event alone
      match if checkedVersion then none
        else event.payload_version.filter (· ≠ EXPECTED_PAYLOAD_VERSION) with
      | some version => (.done, fail (version_error version))
      | none => handle settled now event.kind
  | .reading _ settled, .close =>
      (.done,
        if settled then none
        else fail "Connection to the server was lost before the run finished.")
  | .fetching, .throws message => (.done, fail ("Could not reach server: " ++ message))
  | .reading _ _, .throws message => (.done, fail ("Could not reach server: " ++ message))
  | phase, _ => (phase, none)

end React

/-! ## The canvas -/

variable {G R : Type}

structure RunStream (G : Type) where
  origin : Nat
  body : RunBody G
  phase : Phase

/-- A write of `run` when `latest` had been started last; `origin` is the
graph that the run started on and `graph` the one of the canvas. -/
structure Write where
  run : Nat
  latest : Nat
  origin : Nat
  graph : Nat
  deriving DecidableEq, Repr

structure CanvasState (G R : Type) where
  graph : G
  exec : ExecutionStore R := {}
  runs : List (RunStream G) := []
  replaced : Nat := 0
  writes : List Write := []

inductive CanvasStep (G R : Type) where
  | runGraph (options : RunGraphOptions)
  | input (run : Nat) (input : StreamInput R)
  | replace (graph : G)
  | edit (graph : G)

/-- Without `update` the store stays as it is. -/
def CanvasState.write (s : CanvasState G R) (run origin : Nat) : StoreUpdate R → CanvasState G R
  | none => s
  | some update =>
      { s with
        exec := update s.exec
        writes := s.writes ++ [⟨run, s.runs.length - 1, origin, s.replaced⟩] }

/-- `runGraph`, up to its first `await`. -/
def CanvasState.runGraph (s : CanvasState G R) (options : RunGraphOptions) : CanvasState G R :=
  if s.exec.running then s
  else
    { s with
      exec := s.exec.setRunning
      runs := s.runs ++ [⟨s.replaced, options.body s.graph, .fetching⟩] }

/-- A call makes its update and is then somewhere else. -/
def CanvasState.proceed (s : CanvasState G R) (run : Nat) (r : RunStream G) (phase : Phase)
    (update : StoreUpdate R) : CanvasState G R :=
  { s.write run r.origin update with runs := s.runs.set run { r with phase } }

/-- A call goes on with what it waited for. -/
def CanvasState.input (s : CanvasState G R) (run : Nat) (input : StreamInput R) :
    CanvasState G R :=
  match s.runs[run]? with
  | none => s
  | some r => s.proceed run r (react r.phase input).1 (react r.phase input).2

/-- `loadIR`, `loadModel` and `reset`. -/
def CanvasState.replace (s : CanvasState G R) (graph : G) : CanvasState G R :=
  { s with graph, exec := .clear, replaced := s.replaced + 1 }

def canvasStep (s : CanvasState G R) : CanvasStep G R → CanvasState G R
  | .runGraph options => s.runGraph options
  | .input run input => s.input run input
  | .replace graph => s.replace graph
  | .edit graph => { s with graph }

end EmergentFlow.RunGraph
