import EmergentFlow.Collab.Session
import EmergentFlow.Lib.Runs

/-!
# Collab — Records

The records a session keeps beside its graph: review threads with their
comments (`collab/review.py`), gates with their decisions
(`collab/gates.py`) and the transcript of the agent chat (`collab/chat.py`),
with the methods of the session store on reviews and gates.

Ids of gates and review threads may come from the request, and both maps
are keyed by them: storing under an id that is in use replaces the record.
-/

namespace EmergentFlow

/-! ## The data -/

/-- The checkpoint flavour of a gate. -/
inductive GateKind where
  | PHASE
  | CONFIRM
  | HANDOFF
  | EXECUTE
  | FINAL
  deriving DecidableEq, Repr

/-- Lifecycle status of a gate. -/
inductive GateStatus where
  | OPEN
  | CLOSED
  | SKIPPED
  deriving DecidableEq, Repr

/-- One recorded decision on the timeline of a gate. -/
structure Decision where
  id : String
  author : String
  text : String
  deriving DecidableEq, Repr

/-- A workflow checkpoint. -/
structure Gate where
  id : String
  phase : String
  kind : GateKind
  description : String
  status : GateStatus := .OPEN
  decisions : List Decision := []
  deriving DecidableEq, Repr

inductive ReviewStatus where
  | OPEN
  | RESOLVED
  deriving DecidableEq, Repr

/-- A reply on a review thread. -/
structure ReviewComment where
  id : String
  author : String
  text : String
  deriving DecidableEq, Repr

/-- A finding of a review: a diagnostic with the graph elements it anchors
to. -/
structure Finding (Diag : Type) where
  diagnostic : Diag
  node_id : Option String := none
  edge_id : Option String := none
  port_id : Option String := none

/-- A review of the session graph. -/
structure ReviewThread (Sub Diag : Type) where
  id : String
  author : String
  findings : List (Finding Diag) := []
  comments : List ReviewComment := []
  fix : Option (GraphMutation Sub) := none
  status : ReviewStatus := .OPEN

inductive ChatTurnStatus where
  | RUNNING
  | COMPLETED
  | FAILED
  | INTERRUPTED
  deriving DecidableEq, Repr

/-- One request and its answer in the agent chat. -/
structure ChatTurn where
  id : String
  backend : String
  user_message : String
  narration : List String := []
  agent_message : Option String := none
  status : ChatTurnStatus := .RUNNING
  error : Option String := none
  deriving DecidableEq, Repr

/-- The agent chat of a session: the active backend, that backend's own
thread id, the turns so far and the active persona. -/
structure ChatState where
  backend : Option String := none
  backend_thread_id : Option String := none
  turns : List ChatTurn := []
  active_persona : Option String := none
  deriving DecidableEq, Repr

/-- The collaboration state of a session beside its graph, less what
`GraphSession` already holds. -/
structure CollaborationState (Sub Diag : Type) where
  reviews : Dict String (ReviewThread Sub Diag) := Dict.empty
  gates : Dict String Gate := Dict.empty
  chat : ChatState := {}

/-- A session with its collaboration state. -/
structure CollabSession (Sub Diag : Type) extends GraphSession Sub Diag where
  collab : CollaborationState Sub Diag := {}

/-- The events the methods below publish. -/
inductive CollabEvent where
  | review_added (review_id : String)
  | review_comment_added (review_id comment_id : String)
  | gate_opened (gate_id : String)
  | gate_closed (gate_id : String)
  | gate_skipped (gate_id : String)
  | decision_added (gate_id decision_id : String)
  | chat_turn_started (turn_id : String)
  | chat_narration_added (turn_id : String)
  | chat_turn_completed (turn_id : String)
  | chat_turn_failed (turn_id : String)
  | chat_turn_interrupted (turn_id : String)
  | chat_ended
  deriving DecidableEq, Repr

/-- The sessions of the store, and what it has published for each. -/
structure CollabStore (Sub Diag : Type) where
  sessions : Dict String (CollabSession Sub Diag) := Dict.empty
  published : List (String × CollabEvent) := []

/-- What a finding anchors to that the graph does not have. -/
inductive AnchorError where
  | node_id (id : String)
  | edge_id (id : String)
  | port_of_node (port_id node_id : String)
  | port_id (id : String)
  deriving DecidableEq, Repr

inductive CollabError where
  | unknown_session (session_id : String)
  | anchor (e : AnchorError)
  | unknown_review (session_id review_id : String)
  | unknown_gate (gate_id session_id : String)
  | gate_already_resolved (session_id gate_id : String) (status : GateStatus)
  | unknown_chat_turn (turn_id session_id : String)
  | chat_backend_active (session_id backend requested : String)
  | chat_turn_running (session_id turn_id : String)
  | chat_turn_already_resolved (session_id turn_id : String) (status : ChatTurnStatus)
  deriving DecidableEq, Repr

variable {Sub Diag : Type}

/-- What `validate_anchors` checks for one finding. -/
def Finding.validate_anchors (g : Graph Sub) (f : Finding Diag) : Except AnchorError Unit := do
  let node ← match f.node_id with
    | none => Except.ok none
    | some id => match g.nodes.get? id with
      | none => .error (.node_id id)
      | some node => .ok (some (id, node))
  match f.edge_id with
    | none => Except.ok ()
    | some id => Checks.guard (g.edges.contains id) (.edge_id id)
  match f.port_id, node with
    | none, _ => .ok ()
    | some port_id, some (id, node) =>
        Checks.guard (node.ports.any (·.id = port_id)) (.port_of_node port_id id)
    | some port_id, none =>
        Checks.guard (g.nodes.values.any fun node => node.ports.any (·.id = port_id))
          (.port_id port_id)

/-- `validate_anchors`. -/
def validate_anchors (g : Graph Sub) (findings : List (Finding Diag)) :
    Except AnchorError Unit :=
  findings.forM (·.validate_anchors g)

/-! ## The methods of the store -/

namespace CollabStore

open Transaction

/-- A method of the store. -/
abbrev CollabM (Sub Diag : Type) := Transaction (CollabStore Sub Diag) CollabError

def get (session_id : String) : CollabM Sub Diag (CollabSession Sub Diag) := do
  let st ← read
  match st.sessions.get? session_id with
  | none => raise (.unknown_session session_id)
  | some session => return session

/-- An assignment inside the collaboration state of the live session. -/
def assign (session_id : String)
    (f : CollaborationState Sub Diag → CollaborationState Sub Diag) : CollabM Sub Diag Unit :=
  write fun st => { st with
    sessions := st.sessions.modify session_id fun s => { s with collab := f s.collab } }

/-- `_publish`. -/
def publish (session_id : String) (event : CollabEvent) : CollabM Sub Diag Unit :=
  write fun st => { st with published := st.published ++ [(session_id, event)] }

def add_review (session_id : String) (thread : ReviewThread Sub Diag) : CollabM Sub Diag Unit := do
  let session ← get session_id
  lift ((validate_anchors session.graph thread.findings).mapError .anchor)
  assign session_id fun c => { c with reviews := c.reviews.set thread.id thread }
  publish session_id (.review_added thread.id)

def add_review_comment (session_id review_id : String) (comment : ReviewComment) :
    CollabM Sub Diag Unit := do
  let session ← get session_id
  check (session.collab.reviews.contains review_id) (.unknown_review session_id review_id)
  assign session_id fun c => { c with
    reviews := c.reviews.modify review_id fun t => { t with comments := t.comments ++ [comment] } }
  publish session_id (.review_comment_added review_id comment.id)

/-- `open_gate`: the status is OPEN whatever the caller passed. -/
def open_gate (session_id : String) (gate : Gate) : CollabM Sub Diag Unit := do
  let _ ← get session_id
  assign session_id fun c => { c with
    gates := c.gates.set gate.id { gate with status := .OPEN } }
  publish session_id (.gate_opened gate.id)

/-- `_get_gate`. -/
def get_gate (session : CollabSession Sub Diag) (gate_id : String) : Except CollabError Gate :=
  Checks.require (session.collab.gates.get? gate_id) (.unknown_gate gate_id session.id)

/-- `_resolve_gate`: the one-shot transition from OPEN. -/
def resolve_gate (session_id gate_id : String) (status : GateStatus) (event : CollabEvent) :
    CollabM Sub Diag Unit := do
  let session ← get session_id
  let gate ← lift (get_gate session gate_id)
  check (gate.status = .OPEN) (.gate_already_resolved session_id gate_id gate.status)
  assign session_id fun c => { c with
    gates := c.gates.modify gate_id fun g => { g with status := status } }
  publish session_id event

def close_gate (session_id gate_id : String) : CollabM Sub Diag Unit :=
  resolve_gate session_id gate_id .CLOSED (.gate_closed gate_id)

def skip_gate (session_id gate_id : String) : CollabM Sub Diag Unit :=
  resolve_gate session_id gate_id .SKIPPED (.gate_skipped gate_id)

def add_decision (session_id gate_id : String) (decision : Decision) : CollabM Sub Diag Unit := do
  let session ← get session_id
  let _ ← lift (get_gate session gate_id)
  assign session_id fun c => { c with
    gates := c.gates.modify gate_id fun g => { g with decisions := g.decisions ++ [decision] } }
  publish session_id (.decision_added gate_id decision.id)

/-! ## Single methods -/

theorem get_reads (session_id : String) :
    Reads (get session_id : CollabM Sub Diag (CollabSession Sub Diag)) := by
  apply Reads.read.bind
  intro st
  split
  · exact .raise _
  · exact .pure _

theorem get_eq_ok {sid : String} {st st' : CollabStore Sub Diag} {s : CollabSession Sub Diag} :
    get sid st = (.ok s, st') ↔ st.sessions.get? sid = some s ∧ st' = st := by
  simp only [get, bind_eq_ok, read_apply, Prod.mk.injEq, Except.ok.injEq]
  constructor
  · rintro ⟨a, t, ⟨rfl, rfl⟩, h⟩
    cases hs : st.sessions.get? sid with
    | none => simp [hs] at h
    | some s' =>
        simp only [hs, pure_apply, Prod.mk.injEq, Except.ok.injEq] at h
        exact ⟨by rw [h.1], h.2.symm⟩
  · rintro ⟨hs, rfl⟩
    exact ⟨st', st', ⟨rfl, rfl⟩, by simp [hs]⟩

/-- One assignment and one publication, which every method ends in. -/
theorem assign_publish_total (sid : String)
    (f : CollaborationState Sub Diag → CollaborationState Sub Diag) (event : CollabEvent) :
    Total (do assign sid f; publish sid event : CollabM Sub Diag Unit) :=
  (Total.write _).bind fun _ => .write _

/-- The store updates the collaboration state of one session by `f`;
nothing else of any session changes. -/
structure Updated (sid : String) (f : CollaborationState Sub Diag → CollaborationState Sub Diag)
    (st st' : CollabStore Sub Diag) : Prop where
  here : st'.sessions.get? sid =
    (st.sessions.get? sid).map fun s => { s with collab := f s.collab }
  others : ∀ k ≠ sid, st'.sessions.get? k = st.sessions.get? k

theorem assign_updated {sid : String}
    {f : CollaborationState Sub Diag → CollaborationState Sub Diag}
    {st st' : CollabStore Sub Diag} {u : Unit} (h : assign sid f st = (.ok u, st')) :
    Updated sid f st st' := by
  rw [assign, write_eq_ok] at h
  subst h
  constructor
  · rw [Dict.get?_modify, if_pos rfl]
  · intro k hk
    rw [Dict.get?_modify, if_neg (Ne.symm hk)]

theorem updated_of_assign {sid : String}
    {f : CollaborationState Sub Diag → CollaborationState Sub Diag} {event : CollabEvent}
    {st st' : CollabStore Sub Diag} {u : Unit}
    (h : (do assign sid f; publish sid event : CollabM Sub Diag Unit) st = (.ok u, st')) :
    Updated sid f st st' := by
  obtain ⟨_, t, hassign, hpublish⟩ := bind_eq_ok.mp h
  rw [publish, write_eq_ok] at hpublish
  subst hpublish
  obtain ⟨here, others⟩ := assign_updated hassign
  exact ⟨here, others⟩

end CollabStore

end EmergentFlow
