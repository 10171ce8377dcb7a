import EmergentFlow.Lib.Dict
import EmergentFlow.Lib.Json
import EmergentFlow.Lib.Text
import EmergentFlow.Lib.Transaction

/-!
# Server — Flows

The store of the flows a user saves (`server/flows.py`) and its routes
(`server/app.py`). A flow is one JSON file named by its slug, written to a
temporary file first and then moved into place. Only `list` and the times of
the files are left out.

The file system may fail a request at any of its calls. What is written is
the document itself: `json.loads(json.dumps(graph, indent=2))` is `graph`.
-/

namespace EmergentFlow

/-! ## Slugs -/

/-- `[a-z0-9]`. -/
def is_slug_char (c : Char) : Bool := ('a' ≤ c && c ≤ 'z') || ('0' ≤ c && c ≤ '9')

/-- `_SLUG_RE.match`: runs of slug characters between single hyphens. The
`$` of the pattern also matches before a final newline. -/
def slug_re (slug : String) : Bool :=
  let chars := slug.toList
  let chars := if chars.getLast? = some '\n' then chars.dropLast else chars
  (chars.splitOn '-').all fun run => !run.isEmpty && run.all is_slug_char

/-- `str.lower` of one character, as far as letters of slugs come of it: the
Kelvin sign and the dotted capital I are the only others that have any. -/
def py_lower (c : Char) : List Char :=
  if 'A' ≤ c && c ≤ 'Z' then [c.toLower]
  else if c.toNat = 0x212A then ['k']
  else if c.toNat = 0x130 then ['i', Char.ofNat 0x307]
  else [c]

/-- `re.sub(r"[^a-z0-9]+", "-", …)`; `gap` inside a run that is replaced. -/
def hyphenate (gap : Bool) : List Char → List Char
  | [] => []
  | c :: rest =>
      if is_slug_char c then c :: hyphenate false rest
      else if gap then hyphenate true rest
      else '-' :: hyphenate true rest

/-- `slugify`. -/
def slugify (name : String) : String :=
  let chars := hyphenate false ((py_strip name.toList).flatMap py_lower)
  let slug := String.ofList ((chars.dropWhile (· = '-')).rdropWhile (· = '-'))
  if slug = "" then "untitled" else slug

/-! ## The store -/

/-- A slug the store accepts. -/
abbrev Slug : Type := { slug : String // slug_re slug = true }

inductive FlowError where
  | unknown_flow (slug : Slug)
  | already_exists (slug : Slug)
  | invalid_slug (slug : String)
  /-- a slug that is no string -/
  | type_error
  | os_error
  deriving DecidableEq

/-- The directory: a file under each slug, and the temporary files that are
left, which may be incomplete. Files get the name of a flow by a move only. -/
structure FlowStore where
  flows : Dict Slug Json := Dict.empty
  temps : Dict (Slug × String) (Option Json) := Dict.empty

/-- Where the file system fails a request: before anything was written, or
while the temporary file is written or moved; that file may then stay. -/
inductive Fault where
  | access
  | write (complete removed : Bool)
  deriving DecidableEq, Repr

namespace FlowStore

/-- `_path`. -/
def path (slug : String) : Transaction FlowStore FlowError Slug :=
  if h : slug_re slug = true then pure ⟨slug, h⟩ else .raise (.invalid_slug slug)

/-- A call that the file system may fail. -/
def accessible (fault : Option Fault) : Transaction FlowStore FlowError Unit :=
  .check (fault ≠ some .access) .os_error

/-- The last call of a method, the one that changes the directory. -/
def last_call (fault : Option Fault) (f : FlowStore → FlowStore) :
    Transaction FlowStore FlowError Unit := do
  .check fault.isNone .os_error
  .write f

/-- `get`. -/
def get (fault : Option Fault) (slug : String) : Transaction FlowStore FlowError Json := do
  let slug ← path slug
  .check fault.isNone .os_error
  let s ← .read
  match s.flows.get? slug with
  | none => .raise (.unknown_flow slug)
  | some graph => pure graph

/-- The temporary file that a failed `save` leaves. -/
def leave_temp (slug : Slug) (random : String) (graph : Json) (complete removed : Bool)
    (s : FlowStore) : FlowStore :=
  if removed then s
  else { s with temps := s.temps.set (slug, random) (if complete then some graph else none) }

/-- `save`; `random` is the part of the temporary name that `mkstemp` picks. -/
def save (fault : Option Fault) (random slug : String) (graph : Json) :
    Transaction FlowStore FlowError Slug := do
  let slug ← path slug
  accessible fault
  match fault with
  | some (.write complete removed) => do
      .write (leave_temp slug random graph complete removed)
      .raise .os_error
  | _ => do
      .write fun s => { s with flows := s.flows.set slug graph }
      pure slug

/-- `delete`. -/
def delete (fault : Option Fault) (slug : String) : Transaction FlowStore FlowError Unit := do
  let slug ← path slug
  accessible fault
  let s ← .read
  .check (s.flows.contains slug) (.unknown_flow slug)
  last_call fault fun s => { s with flows := s.flows.erase slug }

/-- `rename`. -/
def rename (fault : Option Fault) (old_slug new_slug : String) :
    Transaction FlowStore FlowError Slug := do
  let old ← path old_slug
  let new ← path new_slug
  accessible fault
  let s ← .read
  match s.flows.get? old with
  | none => .raise (.unknown_flow old)
  | some graph =>
      -- renaming to the same slug does not touch the file
      if new = old then pure new
      else do
        -- no flow is renamed over another one
        .check (!s.flows.contains new) (.already_exists new)
        last_call fault fun s => { s with flows := (s.flows.erase old).set new graph }
        pure new

end FlowStore

/-! ## The routes -/

/-- A request; `body` is the parsed body, `none` when it is no JSON. -/
inductive FlowRequest where
  | get_flow (slug : String)
  | create_flow (body : Option Json)
  | update_flow (slug : String) (body : Option Json)
  | delete_flow (slug : String)
  | rename_flow (slug : String) (body : Option Json)

/-- A request with what the environment does to it. -/
structure FlowCall where
  request : FlowRequest
  fault : Option Fault := none
  random : String := ""

/-- The errors of the routes and of the store. -/
inductive FlowFailure where
  /-- `invalid JSON body` -/
  | invalid_json
  /-- `requires a 'graph' object in the body` -/
  | no_graph
  /-- `requires a non-empty 'new_slug' string` -/
  | no_new_slug
  | store (e : FlowError)
  /-- an exception that the route does not catch -/
  | unhandled
  deriving DecidableEq

inductive FlowResponse where
  | content (graph : Json)
  | saved (slug : Slug)
  | deleted
  | error (status : Nat) (failure : FlowFailure)

/-- The status of a failure. -/
def FlowFailure.response (failure : FlowFailure) : FlowResponse :=
  .error (match failure with
    | .invalid_json | .no_graph | .no_new_slug | .store (.invalid_slug _) => 400
    | .store (.unknown_flow _) => 404
    | .store (.already_exists _) => 409
    | .store .type_error | .store .os_error => 422
    | .unhandled => 500) failure

/-- The body as an object. -/
def read_body (body : Option Json) : Except FlowFailure Json :=
  match body with
  | none => .error .invalid_json
  | some body => if body.isObj then .ok body else .error .unhandled

/-- `body.get("graph")`, which has to be an object. -/
def body_graph (body : Option Json) : Except FlowFailure Json := do
  let body ← read_body body
  match body.get? "graph" with
  | some (.obj members) => .ok (.obj members)
  | _ => .error .no_graph

/-- The name a new flow is filed under. -/
def flow_name (graph : Json) : String :=
  match graph.get? "name" with
  | some (.str name) => if py_strip name.toList = [] then "Untitled" else name
  | _ => "Untitled"

/-- `body.get("slug") or slugify(name)`; `none` when it is no string. -/
def body_slug (body graph : Json) : Option String :=
  match body.get? "slug" with
  | some slug => if slug.truthy then slug.str? else some (slugify (flow_name graph))
  | none => some (slugify (flow_name graph))

/-- What `create_flow` saves, and under which slug. -/
def created (body : Option Json) : Except FlowFailure (String × Json) := do
  let graph ← body_graph body
  match body_slug (body.getD .null) graph with
  | some slug => .ok (slug, graph)
  | none => .error (.store .type_error)

/-- `body.get("new_slug")`, which has to be a string. -/
def body_new_slug (body : Option Json) : Except FlowFailure String := do
  let body ← read_body body
  match body.get? "new_slug" with
  | some (.str slug) => if slug = "" then .error .no_new_slug else .ok slug
  | _ => .error .no_new_slug

/-- Answer with what a method of the store returns or raises. -/
def answer {α : Type} (x : Transaction FlowStore FlowError α) (ok : α → FlowResponse)
    (s : FlowStore) : FlowResponse × FlowStore :=
  match x s with
  | (.ok a, s') => (ok a, s')
  | (.error e, s') => (FlowFailure.response (.store e), s')

/-- One request. `renders` says whether the document can be sent, which
`JSONResponse` decides after the route has caught what it catches. -/
def FlowStore.call (renders : Json → Bool) (s : FlowStore) (c : FlowCall) :
    FlowResponse × FlowStore :=
  match c.request with
  | .get_flow slug => answer (get c.fault slug)
      (fun graph => if renders graph then .content graph else FlowFailure.unhandled.response) s
  | .create_flow body =>
      match created body with
      | .error failure => (failure.response, s)
      | .ok (slug, graph) => answer (save c.fault c.random slug graph) .saved s
  | .update_flow slug body =>
      match body_graph body with
      | .error failure => (failure.response, s)
      | .ok graph => answer (save c.fault c.random slug graph) .saved s
  | .delete_flow slug => answer (delete c.fault slug) (fun _ => .deleted) s
  | .rename_flow slug body =>
      match body_new_slug body with
      | .error failure => (failure.response, s)
      | .ok new_slug => answer (rename c.fault slug new_slug) .saved s

end EmergentFlow
