import EmergentFlow.Collab.SessionRuns

/-!
# Ui — SessionClient

The canvas side of a session (`ui/src/session/sessionStore.ts`), as the
system it is part of: one canvas, the session store of the server, any
number of other clients calling the store, and the requests and responses
under way between them. Every request is sent, served, answered from the
live session object at some later moment, and handled at some moment after
that; anything may happen in between.

The fields the version guard depends on are modelled. `loaded` and `seen`
are bookkeeping of the model: which graph of the server the canvas last
loaded or pushed, and all of them.
-/

namespace EmergentFlow

/-! ## Events -/

/-- The event types of the session stream. -/
inductive EventType where
  | graph_replaced
  | graph_changed
  | graph_reverted
  | proposal_added
  | proposal_accepted
  | proposal_rejected
  | review_added
  | review_comment_added
  | gate_opened
  | gate_closed
  | gate_skipped
  | decision_added
  | chat_turn_started
  | chat_narration_added
  | chat_turn_completed
  | chat_turn_failed
  | chat_turn_interrupted
  | chat_ended
  | persona_changed
  | run_completed
  | tour_added
  | tour_updated
  | tour_deleted
  deriving DecidableEq, Repr

/-- `GRAPH_EVENT_TYPES`. -/
def isGraphEvent : EventType → Bool
  | .graph_replaced | .proposal_accepted | .graph_changed | .graph_reverted => true
  | _ => false

/-! ## Requests and responses -/

/-- A request of the canvas, with what its handler needs. -/
inductive Request (Sub : Type) where
  | join
  | refresh (event : EventType)
  | pushLocalGraph (graph : Graph Sub) (expected_version : Int)
  | accept (proposal_id checkpoint_id : String)
  | reject (proposal_id : String)
  | endChat
  | applyDirectMutation (mutation : GraphMutation Sub) (author description : TextArg)
      (checkpoint_id : String)
  | revertCheckpoint (checkpoint_id revert_id : String)

/-- A response: the session, a version conflict, or any other failure. -/
inductive Response (Sub : Type) where
  | session (version : Int) (graph : Graph Sub)
  | stale_version
  | error

/-- How far a request has got. -/
inductive Phase (Sub : Type) where
  | sent
  | served
  | answered (response : Response Sub)

structure Flight (Sub : Type) where
  request : Request Sub
  phase : Phase Sub

/-- The call a request makes to the store; the others only read it. -/
def Request.call {Sub : Type} (sid : String) : Request Sub → Option (Call Sub)
  | .pushLocalGraph g n => some (.replace_graph sid g n)
  | .accept pid cid => some (.accept_proposal sid pid cid)
  | .reject pid => some (.reject_proposal sid pid)
  | .applyDirectMutation m author description cid =>
      some (.apply_direct_mutation sid m author description cid)
  | .revertCheckpoint cid rid => some (.revert_checkpoint sid cid rid)
  | .join | .refresh _ | .endChat => none

/-! ## The canvas -/

variable {Sub Diag : Type}

/-- The connection state of the session store, its module variables
`inFlightRefresh` and `queuedEvent`, and the graph `toIR()` gives. -/
structure Client (Sub : Type) where
  sessionId : Option String := none
  version : Option Int := none
  rebaseNeeded : Bool := false
  inFlightRefresh : Bool := false
  queuedEvent : Option EventType := none
  canvas : Graph Sub := {}

def Client.loadIR (c : Client Sub) (g : Graph Sub) : Client Sub := { c with canvas := g }

/-- `set(applySession(session))`. -/
def Client.applySession (c : Client Sub) (sid : String) (version : Int) : Client Sub :=
  { c with sessionId := some sid, version := some version, rebaseNeeded := false }

/-- `leave`, through `resetConnectionState`. -/
def Client.leave (c : Client Sub) : Client Sub :=
  { c with sessionId := none, version := none, rebaseNeeded := false, queuedEvent := none }

/-- What the user does that sends a request. -/
inductive UserAction (Sub : Type) where
  | join
  | pushLocalGraph
  | accept (proposal_id checkpoint_id : String)
  | reject (proposal_id : String)
  | endChat
  | applyDirectMutation (mutation : GraphMutation Sub) (author description : TextArg)
      (checkpoint_id : String)
  | revertCheckpoint (checkpoint_id revert_id : String)

/-- The request an action sends: none without a session, and a push needs a
version too. -/
def Client.start (c : Client Sub) : UserAction Sub → Option (Request Sub)
  | .join => some .join
  | .pushLocalGraph =>
      match c.sessionId, c.version with
      | some _, some n => some (.pushLocalGraph c.canvas n)
      | _, _ => none
  | .accept pid cid => c.sessionId.map fun _ => .accept pid cid
  | .reject pid => c.sessionId.map fun _ => .reject pid
  | .endChat => c.sessionId.map fun _ => .endChat
  | .applyDirectMutation m author description cid =>
      c.sessionId.map fun _ => .applyDirectMutation m author description cid
  | .revertCheckpoint cid rid => c.sessionId.map fun _ => .revertCheckpoint cid rid

/-- `handleSessionEvent`: start a refresh, or queue the event behind the one
in flight; a queued graph event is never displaced by another kind. -/
def Client.handleSessionEvent (sid : String) (c : Client Sub) (event : EventType) :
    Client Sub × Option (Request Sub) :=
  if c.sessionId ≠ some sid then (c, none)
  else if event = .run_completed then (c, none)
  else if c.inFlightRefresh then
    let keep := (c.queuedEvent.map isGraphEvent).getD false && !isGraphEvent event
    (if keep then c else { c with queuedEvent := some event }, none)
  else ({ c with inFlightRefresh := true }, some (.refresh event))

/-- The handler of a response, after the `await`. -/
def Client.handle (sid : String) (c : Client Sub) : Request Sub → Response Sub → Client Sub
  | .join, .session n g => (c.loadIR g).applySession sid n
  | .refresh event, .session n g =>
      -- the user left while the request was in flight
      if c.sessionId ≠ some sid then c
      else
        let c := { c with version := some n }
        if isGraphEvent event then c.loadIR g else c
  | .pushLocalGraph _ _, .session n _ => { c with version := some n, rebaseNeeded := false }
  | .accept _ _, .session n g => { c.loadIR g with version := some n }
  | .reject _, .session n _ => { c with version := some n }
  | .endChat, .session n _ => { c with version := some n }
  | .applyDirectMutation .., .session n g => (c.loadIR g).applySession sid n
  | .revertCheckpoint .., .session n g => (c.loadIR g).applySession sid n
  | .pushLocalGraph _ _, .stale_version => { c with rebaseNeeded := true }
  | .accept _ _, .stale_version => { c with rebaseNeeded := true }
  | .applyDirectMutation .., .stale_version => { c with rebaseNeeded := true }
  | _, _ => c

/-- The end of a refresh: an event queued meanwhile is handled now. -/
def Client.refreshed (sid : String) (c : Client Sub) : Client Sub × Option (Request Sub) :=
  let next := c.queuedEvent
  let c := { c with inFlightRefresh := false, queuedEvent := none }
  match next with
  | none => (c, none)
  | some event => c.handleSessionEvent sid event

/-! ## The system -/

/-- The server, the canvas, the requests under way, and the bookkeeping. -/
structure System (Sub Diag : Type) where
  store : SessionStore Sub Diag
  client : Client Sub := {}
  flights : List (Flight Sub) := []
  loaded : Option Int := none
  seen : List (Int × Graph Sub) := []

/-- One step of the system. -/
inductive Action (Sub : Type) where
  /-- another client calls the store -/
  | call (c : Call Sub)
  /-- a local edit -/
  | edit (g : Graph Sub)
  | leave
  | user (a : UserAction Sub)
  /-- an event reaches the canvas, from the stream or made up by polling -/
  | event (e : EventType)
  /-- the store serves a request -/
  | serve (i : Nat)
  /-- the live session is written into the response -/
  | answer (i : Nat)
  /-- the connection breaks -/
  | lose (i : Nat)
  /-- the canvas handles a response -/
  | receive (i : Nat)

/-- What serving a request leaves it as. -/
def Request.served (v : Validation Sub Diag) (sid : String) (st : SessionStore Sub Diag)
    (r : Request Sub) : Phase Sub :=
  match r.call sid with
  | none => if st.sessions.contains sid then .served else .answered .error
  | some c =>
      match (c.run v st).1 with
      | .ok _ => .served
      | .error (.stale_version _ _ _) => .answered .stale_version
      | .error _ => .answered .error

/-- The graph of the server that handling a response brings into the
canvas, or, for a push, the one that came from it. -/
def Client.loads (sid : String) (c : Client Sub) :
    Request Sub → Response Sub → Option (Int × Graph Sub)
  | .join, .session n g | .accept _ _, .session n g | .applyDirectMutation .., .session n g
  | .revertCheckpoint .., .session n g => some (n, g)
  | .refresh event, .session n g =>
      if c.sessionId = some sid ∧ isGraphEvent event then some (n, g) else none
  | .pushLocalGraph g n, .session _ _ => some (n + 1, g)
  | _, _ => none

def System.send (sys : System Sub Diag) (r : Option (Request Sub)) : System Sub Diag :=
  { sys with flights := sys.flights ++ r.toList.map fun r => { request := r, phase := .sent } }

/-- Handle the response of a request that is no longer under way. -/
def System.handle (sid : String) (sys : System Sub Diag) (r : Request Sub)
    (response : Response Sub) : System Sub Diag :=
  let handled := sys.client.handle sid r response
  let next := match r with
    | .refresh _ => handled.refreshed sid
    | _ => (handled, none)
  let loads := sys.client.loads sid r response
  { sys with
    client := next.1
    loaded := (loads.map Prod.fst).or sys.loaded
    seen := loads.toList ++ sys.seen }.send next.2

/-- One step; `none` when the action is not enabled. -/
def System.step (v : Validation Sub Diag) (sid : String) (sys : System Sub Diag) :
    Action Sub → Option (System Sub Diag)
  | .call c => some { sys with store := c.after v sys.store }
  | .edit g => some { sys with client := { sys.client with canvas := g } }
  | .leave => some { sys with client := sys.client.leave }
  | .user a => (sys.client.start a).map fun r => sys.send (some r)
  | .event e =>
      let next := sys.client.handleSessionEvent sid e
      some ({ sys with client := next.1 }.send next.2)
  | .serve i =>
      match sys.flights[i]? with
      | some { request := r, phase := .sent } => some { sys with
          store := match r.call sid with
            | none => sys.store
            | some c => c.after v sys.store
          flights := sys.flights.set i { request := r, phase := r.served v sid sys.store } }
      | _ => none
  | .answer i =>
      match sys.flights[i]?, sys.store.sessions.get? sid with
      | some { request := r, phase := .served }, some s => some { sys with
          flights := sys.flights.set i
            { request := r, phase := .answered (.session s.version s.graph) } }
      | _, _ => none
  -- the request may have been served: the client cannot tell
  | .lose i => sys.flights[i]?.map fun f => { sys with
      flights := sys.flights.set i { f with phase := .answered .error } }
  | .receive i =>
      match sys.flights[i]? with
      | some { request := r, phase := .answered response } =>
          some ({ sys with flights := sys.flights.eraseIdx i }.handle sid r response)
      | _ => none

/-- The system after a list of steps, if each is enabled in turn. -/
def System.exec (v : Validation Sub Diag) (sid : String) :
    System Sub Diag → List (Action Sub) → Option (System Sub Diag)
  | sys, [] => some sys
  | sys, a :: actions =>
      match sys.step v sid a with
      | none => none
      | some sys' => sys'.exec v sid actions

end EmergentFlow
