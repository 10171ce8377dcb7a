import Mathlib.Data.Rat.Defs
import EmergentFlow.Collab.Records
import EmergentFlow.Ui.SessionClient

/-!
# Ui — SessionSync

How the canvas follows a session (`ui/src/session/sessionStore.ts` and the
event stream of `sessionClient.ts`): it joins with a snapshot, subscribes
to the events of the session, and reads the session again at each event,
one refresh at a time. The user may leave or switch sessions while
requests, refreshes and events of the last one are still under way.

The server holds many sessions, written by anyone at any time; what a
write puts into a session is arbitrary, which fields it touches and what it
publishes is that of `collab/session.py`. `edited` and `agentTurn` are
bookkeeping of the model: whether the canvas was edited since it was last
loaded, and the turn the last refresh added to the chat.
-/

namespace EmergentFlow.Sync

variable {Sub Diag : Type}

/-! ## Sessions -/

inductive AttemptVerdict where
  | KEPT
  | REVERTED
  | PENDING
  deriving DecidableEq, Repr

/-- One experiment attempt. -/
structure Attempt where
  id : String
  mutation_id : String
  run_id : Option String := none
  metric_name : Option String := none
  metric_value : Option Rat := none
  verdict : AttemptVerdict := .PENDING
  hypothesis : String := ""
  author : String := "agent"
  deriving DecidableEq, Repr

inductive TourReach where
  | up
  | down
  | both
  deriving DecidableEq, Repr

structure TourStep where
  focus : List String := []
  reach : Option TourReach := none
  route : Option (String × String) := none
  note : String
  unknowns : List String := []
  deriving DecidableEq, Repr

/-- A guided walkthrough of the session graph. -/
structure Tour where
  id : String
  title : String
  conclusion : String
  steps : List TourStep
  author : String
  deriving DecidableEq, Repr

/-- A session as the canvas reads it. -/
structure Session (Sub Diag : Type) extends CollabSession Sub Diag where
  attempts : Dict String Attempt := Dict.empty
  tours : Dict String Tour := Dict.empty

/-! ## Events -/

/-- `SessionEvent`, with the fields the canvas reads. -/
structure Event where
  type : EventType
  session_id : String
  checkpoint_id : Option String := none
  author : Option String := none
  description : Option String := none
  deriving DecidableEq, Repr

/-- What the server puts on the stream. `attempt_recorded` is no type of
the `SessionEvent` schema. -/
inductive Frame where
  | event (e : Event)
  | attempt_recorded (session_id attempt_id : String)
  deriving DecidableEq, Repr

/-- `validateSessionEvent`: a frame outside the schema is dropped. -/
def validateSessionEvent : Frame → Option Event
  | .event e => some e
  | .attempt_recorded _ _ => none

/-! ## Writes of the server -/

/-- A write to a session under the lock, with the new values it leaves. -/
inductive Write (Sub Diag : Type) where
  | replace_graph (graph : Graph Sub)
  | add_proposal (proposals : Dict String (StoredProposal Sub Diag))
  | accept_proposal (graph : Graph Sub) (proposals : Dict String (StoredProposal Sub Diag))
      (checkpoints : Dict String (Checkpoint Sub)) (checkpoint_id : String)
  | reject_proposal (proposals : Dict String (StoredProposal Sub Diag))
  | apply_direct_mutation (graph : Graph Sub) (checkpoints : Dict String (Checkpoint Sub))
      (checkpoint_id author description : String)
  | revert_checkpoint (graph : Graph Sub) (checkpoints : Dict String (Checkpoint Sub))
      (checkpoint_id author description : String)
  | add_review (reviews : Dict String (ReviewThread Sub Diag))
  | add_review_comment (reviews : Dict String (ReviewThread Sub Diag))
  | open_gate (gates : Dict String Gate)
  | close_gate (gates : Dict String Gate)
  | skip_gate (gates : Dict String Gate)
  | add_decision (gates : Dict String Gate)
  | start_chat_turn (chat : ChatState)
  | append_chat_narration (chat : ChatState)
  | complete_chat_turn (chat : ChatState)
  | fail_chat_turn (chat : ChatState)
  | interrupt_chat_turn (chat : ChatState)
  | set_chat_thread_id (thread_id : String)
  | set_chat_persona (persona_slug : Option String)
  | end_chat (chat : ChatState)
  | write_tour (existed : Bool) (tours : Dict String Tour)
  | delete_tour (tours : Dict String Tour)
  | record_attempt (attempts : Dict String Attempt) (attempt_id : String)
  | record_run

def Session.set_graph (s : Session Sub Diag) (graph : Graph Sub) : Session Sub Diag :=
  { s with graph, version := s.version + 1 }

def Session.set_chat (s : Session Sub Diag) (chat : ChatState) : Session Sub Diag :=
  { s with collab := { s.collab with chat } }

/-- The session after a write. -/
def Write.apply (s : Session Sub Diag) : Write Sub Diag → Session Sub Diag
  | .replace_graph graph => s.set_graph graph
  | .add_proposal proposals | .reject_proposal proposals => { s with proposals }
  | .accept_proposal graph proposals checkpoints _ =>
      { s.set_graph graph with proposals, checkpoints }
  | .apply_direct_mutation graph checkpoints _ _ _ | .revert_checkpoint graph checkpoints _ _ _ =>
      { s.set_graph graph with checkpoints }
  | .add_review reviews | .add_review_comment reviews =>
      { s with collab := { s.collab with reviews } }
  | .open_gate gates | .close_gate gates | .skip_gate gates | .add_decision gates =>
      { s with collab := { s.collab with gates } }
  | .start_chat_turn chat | .append_chat_narration chat | .complete_chat_turn chat
  | .fail_chat_turn chat | .interrupt_chat_turn chat | .end_chat chat => s.set_chat chat
  | .set_chat_thread_id thread_id =>
      s.set_chat { s.collab.chat with backend_thread_id := some thread_id }
  | .set_chat_persona persona_slug =>
      s.set_chat { s.collab.chat with active_persona := persona_slug }
  | .write_tour _ tours | .delete_tour tours => { s with tours }
  | .record_attempt attempts _ => { s with attempts }
  | .record_run => s

/-- What a write publishes. -/
def Write.frame (session_id : String) : Write Sub Diag → Option Frame
  | .replace_graph _ => some (.event { type := .graph_replaced, session_id })
  | .add_proposal _ => some (.event { type := .proposal_added, session_id })
  | .accept_proposal _ _ _ checkpoint_id =>
      some (.event { type := .proposal_accepted, session_id, checkpoint_id })
  | .reject_proposal _ => some (.event { type := .proposal_rejected, session_id })
  | .apply_direct_mutation _ _ checkpoint_id author description =>
      some (.event { type := .graph_changed, session_id, checkpoint_id, author, description })
  | .revert_checkpoint _ _ checkpoint_id author description =>
      some (.event { type := .graph_reverted, session_id, checkpoint_id, author, description })
  | .add_review _ => some (.event { type := .review_added, session_id })
  | .add_review_comment _ => some (.event { type := .review_comment_added, session_id })
  | .open_gate _ => some (.event { type := .gate_opened, session_id })
  | .close_gate _ => some (.event { type := .gate_closed, session_id })
  | .skip_gate _ => some (.event { type := .gate_skipped, session_id })
  | .add_decision _ => some (.event { type := .decision_added, session_id })
  | .start_chat_turn _ => some (.event { type := .chat_turn_started, session_id })
  | .append_chat_narration _ => some (.event { type := .chat_narration_added, session_id })
  | .complete_chat_turn _ => some (.event { type := .chat_turn_completed, session_id })
  | .fail_chat_turn _ => some (.event { type := .chat_turn_failed, session_id })
  | .interrupt_chat_turn _ => some (.event { type := .chat_turn_interrupted, session_id })
  | .set_chat_thread_id _ => none
  | .set_chat_persona _ => some (.event { type := .persona_changed, session_id })
  | .end_chat _ => some (.event { type := .chat_ended, session_id })
  | .write_tour existed _ =>
      some (.event { type := if existed then .tour_updated else .tour_added, session_id })
  | .delete_tour _ => some (.event { type := .tour_deleted, session_id })
  | .record_attempt _ attempt_id => some (.attempt_recorded session_id attempt_id)
  | .record_run => some (.event { type := .run_completed, session_id })

/-! ## The session store -/

/-- `SessionConnectionStatus`. -/
inductive Status where
  | idle
  | connecting
  | connected
  | error
  deriving DecidableEq, Repr

/-- The connection state; by default `idleConnectionState`. -/
structure Store (Sub Diag : Type) where
  sessionId : Option String := none
  version : Option Int := none
  proposals : Dict String (StoredProposal Sub Diag) := Dict.empty
  reviews : Dict String (ReviewThread Sub Diag) := Dict.empty
  gates : Dict String Gate := Dict.empty
  chat : ChatState := {}
  attempts : Dict String Attempt := Dict.empty
  checkpoints : Dict String (Checkpoint Sub) := Dict.empty
  tours : Dict String Tour := Dict.empty
  status : Status := .idle
  error : Option String := none
  rebaseNeeded : Bool := false
  rebaseMessage : Option String := none

/-- `applySession`. -/
def applySession (s : Session Sub Diag) : Store Sub Diag where
  sessionId := some s.id
  version := some s.version
  proposals := s.proposals
  reviews := s.collab.reviews
  gates := s.collab.gates
  chat := s.collab.chat
  attempts := s.attempts
  checkpoints := s.checkpoints
  tours := s.tours
  status := .connected

/-- `activeSubscription`: the stream of a session. It is `live` from when
the server has registered it; what was published before is not on it. -/
structure Subscription where
  session_id : String
  live : Bool := false
  queue : List Frame := []

/-- `inFlightRefresh`: the refresh under way, its event and its response. -/
structure Refresh (Sub Diag : Type) where
  session_id : String
  event : Event
  response : Option (Except String (Session Sub Diag)) := none

/-! ## Requests -/

/-- The requests of the store's actions, with what their handlers need.
`applyFix` is a `propose` followed by an `accept`. -/
inductive Request where
  | createAndJoin
  | join (sessionId : String)
  | pushLocalGraph
  | propose
  | consult
  | accept
  | reject
  | postReview
  | postReviewComment (reviewId : String)
  | openGate
  | closeGate (gateId : String)
  | skipGate (gateId : String)
  | addGateDecision (gateId : String)
  | startChat (backend : String)
  | stopChat
  | endChat
  | applyDirectMutation
  | revertCheckpoint
  | listCheckpoints
  | compileSession
  | executeSession
  deriving DecidableEq, Repr

/-- The bodies of the responses. -/
inductive Response (Sub Diag : Type) where
  | session (s : Session Sub Diag)
  | proposal (p : StoredProposal Sub Diag)
  | review (thread : ReviewThread Sub Diag)
  | gate (gate : Gate)
  | turn (turn : ChatTurn)
  | checkpoints (checkpoints : List (Checkpoint Sub))
  | result
  | error (message : String)

/-- A request under way, with the session it is about. -/
structure Flight (Sub Diag : Type) where
  request : Request
  session_id : Option String
  response : Option (Response Sub Diag) := none

/-! ## The system -/

structure System (Sub Diag : Type) where
  sessions : Dict String (Session Sub Diag)
  store : Store Sub Diag := {}
  canvas : Graph Sub := {}
  activeSubscription : Option Subscription := none
  inFlightRefresh : Option (Refresh Sub Diag) := none
  queuedEvent : Option Event := none
  flights : List (Flight Sub Diag) := []
  edited : Bool := false
  agentTurn : Option ChatTurn := none

namespace System

/-- `loadIR(graph, { reflow })`: `place` lays the nodes out anew. -/
def loadIR (place : Bool → Graph Sub → Graph Sub) (sys : System Sub Diag) (graph : Graph Sub)
    (reflow : Bool) : System Sub Diag :=
  { sys with canvas := place reflow graph, edited := false }

/-- `subscribe`. -/
def subscribe (sys : System Sub Diag) (session_id : String) : System Sub Diag :=
  { sys with activeSubscription := some { session_id } }

/-- `set(applySession(session))`. -/
def setSession (sys : System Sub Diag) (s : Session Sub Diag) : System Sub Diag :=
  { sys with store := applySession s, agentTurn := none }

/-- `leave`, through `resetConnectionState`. -/
def leave (sys : System Sub Diag) : System Sub Diag :=
  { sys with store := {}, activeSubscription := none, queuedEvent := none, agentTurn := none }

/-! ### Refreshing -/

/-- The synthetic turn of `appendAgentTurn`. -/
def agent_turn (now : String) (e : Event) : ChatTurn where
  id := "agent-" ++ e.checkpoint_id.getD now
  backend := "agent"
  user_message := ""
  agent_message :=
    let description := e.description.getD ""
    if description ≠ "" then description
    else e.author.getD "agent" ++ " applied a graph change."
  status := .COMPLETED

/-- The turn a refresh for this event adds to the chat. -/
def added_turn (now : String) (e : Event) : Option ChatTurn :=
  if e.type = .graph_changed ∨ e.type = .graph_reverted then some (agent_turn now e) else none

/-- `refreshFromServer`, after the `await`. -/
def refreshFromServer (place : Bool → Graph Sub → Graph Sub) (sys : System Sub Diag)
    (session_id : String) (e : Event) (now : String) :
    Except String (Session Sub Diag) → System Sub Diag
  | .ok s =>
      -- the user left or switched while the request was in flight
      if sys.store.sessionId ≠ some session_id then sys
      else
        let turn := added_turn now e
        let sys := { sys with
          agentTurn := turn
          store := { sys.store with
            version := some s.version
            proposals := s.proposals
            reviews := s.collab.reviews
            gates := s.collab.gates
            chat := { s.collab.chat with turns := s.collab.chat.turns ++ turn.toList }
            attempts := s.attempts
            checkpoints := s.checkpoints
            tours := s.tours } }
        if isGraphEvent e.type then
          sys.loadIR place s.graph (e.type = .proposal_accepted || e.type = .graph_changed)
        else sys
  | .error message =>
      if sys.store.sessionId ≠ some session_id then sys
      else { sys with store := { sys.store with error := some message } }

/-- `handleSessionEvent`: start a refresh, or queue the event behind the one
in flight; a queued graph event is never displaced by another kind. -/
def handleSessionEvent (sys : System Sub Diag) (e : Event) : System Sub Diag :=
  if sys.store.sessionId ≠ some e.session_id then sys
  else if e.type = .run_completed then sys
  else match sys.inFlightRefresh with
    | some _ =>
        if sys.queuedEvent.any (fun queued => isGraphEvent queued.type) && !isGraphEvent e.type
        then sys
        else { sys with queuedEvent := some e }
    | none => { sys with inFlightRefresh := some { session_id := e.session_id, event := e } }

/-- The end of a refresh: an event queued meanwhile is handled now. -/
def next_refresh (sys : System Sub Diag) : System Sub Diag :=
  let next := sys.queuedEvent
  let sys := { sys with inFlightRefresh := none, queuedEvent := none }
  match next with
  | none => sys
  | some e => sys.handleSessionEvent e

/-! ### Responses -/

/-- The error of an action that a version conflict can stop. -/
def conflict (sys : System Sub Diag) (message : String) : System Sub Diag :=
  if message.startsWith "stale_version" then
    { sys with store := { sys.store with rebaseNeeded := true, rebaseMessage := some message } }
  else { sys with store := { sys.store with error := some message } }

/-- The handler of a response, after the `await`. -/
def handle (place : Bool → Graph Sub → Graph Sub) (sys : System Sub Diag) :
    Request → Response Sub Diag → System Sub Diag
  | .createAndJoin, .session s | .join _, .session s =>
      ((sys.loadIR place s.graph false).subscribe s.id).setSession s
  | .pushLocalGraph, .session s => { sys with store := { sys.store with
      version := some s.version, proposals := s.proposals
      rebaseNeeded := false, rebaseMessage := none } }
  | .propose, .proposal p | .consult, .proposal p =>
      { sys with store := { sys.store with proposals := sys.store.proposals.set p.id p } }
  | .accept, .session s =>
      let sys := sys.loadIR place s.graph false
      { sys with store := { sys.store with version := some s.version, proposals := s.proposals } }
  | .reject, .session s =>
      { sys with store := { sys.store with version := some s.version, proposals := s.proposals } }
  | .postReview, .review thread =>
      { sys with store := { sys.store with reviews := sys.store.reviews.set thread.id thread } }
  | .postReviewComment reviewId, .review thread =>
      { sys with store := { sys.store with reviews := sys.store.reviews.set reviewId thread } }
  | .openGate, .gate gate =>
      { sys with store := { sys.store with gates := sys.store.gates.set gate.id gate } }
  | .closeGate gateId, .gate gate | .skipGate gateId, .gate gate
  | .addGateDecision gateId, .gate gate =>
      { sys with store := { sys.store with gates := sys.store.gates.set gateId gate } }
  | .startChat backend, .turn turn => { sys with store := { sys.store with
      chat := { sys.store.chat with
        backend := some (sys.store.chat.backend.getD backend)
        turns := sys.store.chat.turns ++ [turn] } } }
  | .stopChat, .turn turn => { sys with store := { sys.store with
      chat := { sys.store.chat with
        turns := sys.store.chat.turns.map fun t => if t.id = turn.id then turn else t } } }
  | .endChat, .session s => { sys with
      agentTurn := none
      store := { sys.store with
        version := some s.version, proposals := s.proposals
        reviews := s.collab.reviews, gates := s.collab.gates, chat := s.collab.chat } }
  | .applyDirectMutation, .session s | .revertCheckpoint, .session s =>
      (sys.loadIR place s.graph false).setSession s
  | .listCheckpoints, .checkpoints checkpoints => { sys with store := { sys.store with
      checkpoints := Dict.ofList (checkpoints.map fun c => (c.id, c)) } }
  | .createAndJoin, .error message | .join _, .error message =>
      { sys with store := { sys.store with status := .error, error := some message } }
  | .pushLocalGraph, .error message | .propose, .error message | .accept, .error message
  | .applyDirectMutation, .error message => sys.conflict message
  -- these let the exception through
  | .postReview, .error _ | .postReviewComment _, .error _ | .openGate, .error _
  | .addGateDecision _, .error _ => sys
  | _, .error message => { sys with store := { sys.store with error := some message } }
  | _, _ => sys

/-! ### Steps -/

/-- Send the request of an action: `none` without the session it needs. -/
def act (sys : System Sub Diag) (r : Request) : Option (System Sub Diag) :=
  let send session_id : System Sub Diag := { sys with
    flights := sys.flights ++ [{ request := r, session_id }] }
  let connecting : Store Sub Diag := { sys.store with status := .connecting, error := none }
  match r with
  | .createAndJoin => some { send none with store := connecting }
  | .join sessionId => some { send (some sessionId) with store := connecting }
  | .pushLocalGraph =>
      if sys.store.version.isSome then sys.store.sessionId.map fun id => send (some id) else none
  | _ => sys.store.sessionId.map fun id => send (some id)

end System

/-- What the server answers: the live session, or another body. -/
inductive Reply (Sub Diag : Type) where
  | session (session_id : String)
  | body (response : Response Sub Diag)

/-- The response, when the reply is one to this request. -/
def System.respond (sys : System Sub Diag) (f : Flight Sub Diag) :
    Reply Sub Diag → Option (Response Sub Diag)
  | .session id =>
      if f.session_id = none ∨ f.session_id = some id then (sys.sessions.get? id).map .session
      else none
  | .body (.session _) => none
  | .body response => some response

/-- Put what a write publishes on the stream of its session. -/
def System.publish (sys : System Sub Diag) (session_id : String) (frame : Option Frame) :
    System Sub Diag :=
  match sys.activeSubscription with
  | none => sys
  | some sub =>
      if sub.session_id = session_id ∧ sub.live then
        { sys with activeSubscription := some { sub with queue := sub.queue ++ frame.toList } }
      else sys

/-- One step of the system. -/
inductive Action (Sub Diag : Type) where
  /-- anyone writes to a session -/
  | write (session_id : String) (w : Write Sub Diag)
  | create (session_id : String) (graph : Graph Sub)
  | delete (session_id : String)
  /-- a local edit -/
  | edit (graph : Graph Sub)
  | act (r : Request)
  | leave
  /-- the server answers a request -/
  | answer (i : Nat) (reply : Reply Sub Diag)
  /-- the canvas handles a response -/
  | receive (i : Nat)
  /-- the server answers the refresh, or its request fails -/
  | answerRefresh
  | failRefresh (message : String)
  /-- the canvas handles the response of the refresh -/
  | refreshed (now : String)
  /-- the server registers the subscription -/
  | register
  /-- the stream breaks; the browser will connect again -/
  | disconnect
  /-- the first frame of the stream reaches the canvas -/
  | deliver

/-- One step; `none` when the action is not enabled. -/
def System.step (place : Bool → Graph Sub → Graph Sub) (sys : System Sub Diag) :
    Action Sub Diag → Option (System Sub Diag)
  | .write id w => (sys.sessions.get? id).map fun s =>
      { sys with sessions := sys.sessions.set id (w.apply s) }.publish id (w.frame id)
  | .create id graph =>
      -- an id is never used twice
      if sys.sessions.contains id || sys.activeSubscription.any (·.session_id = id) then none
      else some { sys with sessions := sys.sessions.set id { id, graph } }
  | .delete id => some { sys with sessions := sys.sessions.erase id }
  | .edit graph => some { sys with canvas := graph, edited := true }
  | .act r => sys.act r
  | .leave => some sys.leave
  | .answer i reply => sys.flights[i]?.bind fun f =>
      if f.response.isSome then none
      else (sys.respond f reply).map fun response =>
        { sys with flights := sys.flights.set i { f with response := some response } }
  | .receive i => sys.flights[i]?.bind fun f => f.response.map fun response =>
      { sys with flights := sys.flights.eraseIdx i }.handle place f.request response
  | .answerRefresh => sys.inFlightRefresh.bind fun r =>
      if r.response.isSome then none
      else
        let response := match sys.sessions.get? r.session_id with
          | some s => .ok s
          | none => .error "unknown session"
        some { sys with inFlightRefresh := some { r with response := some response } }
  | .failRefresh message => sys.inFlightRefresh.map fun r =>
      { sys with inFlightRefresh := some { r with response := some (.error message) } }
  | .refreshed now => sys.inFlightRefresh.bind fun r => r.response.map fun response =>
      (sys.refreshFromServer place r.session_id r.event now response).next_refresh
  | .register => sys.activeSubscription.bind fun sub =>
      if sub.live || !sys.sessions.contains sub.session_id then none
      else some { sys with activeSubscription := some { sub with live := true } }
  | .disconnect => sys.activeSubscription.map fun sub =>
      { sys with activeSubscription := some { sub with live := false, queue := [] } }
  | .deliver => sys.activeSubscription.bind fun sub => match sub.queue with
      | [] => none
      | frame :: rest =>
          let sys := { sys with activeSubscription := some { sub with queue := rest } }
          match validateSessionEvent frame with
          | none => some sys
          | some e => some (sys.handleSessionEvent e)

/-- The system after a list of steps, if each is enabled in turn. -/
def System.exec (place : Bool → Graph Sub → Graph Sub) :
    System Sub Diag → List (Action Sub Diag) → Option (System Sub Diag)
  | sys, [] => some sys
  | sys, a :: actions =>
      match sys.step place a with
      | none => none
      | some sys' => sys'.exec place actions

end EmergentFlow.Sync
