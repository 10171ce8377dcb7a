import EmergentFlow.Ir.Mutation
import EmergentFlow.Lib.Transaction

/-!
# Collab — Session

Graph sessions (`emergentflow/collab/session.py`): a graph with a version
counter, its proposals and checkpoints, and the subscribers of its events.
Every method of the store runs under one lock, so each is one transaction
on the whole store; it mutates the live session object in place, one
assignment at a time, and may raise between two of them.

Objects get their ids from a generator outside the store. A method that
creates an object takes its id as an argument here.
-/

namespace EmergentFlow

/-! ## The data -/

/-- Lifecycle status of a stored proposal. -/
inductive ProposalStatus where
  | PENDING
  | ACCEPTED
  | REJECTED
  deriving DecidableEq, Repr

/-- A mutation proposal as recorded on a session, with its verdict. -/
structure StoredProposal (Sub Diag : Type) where
  id : String
  mutation : GraphMutation Sub
  diagnostics : Diag
  status : ProposalStatus := .PENDING

inductive CheckpointKind where
  | EDIT
  | REVERT
  deriving DecidableEq, Repr

/-- One recorded graph transition, with the graph before it. -/
structure Checkpoint (Sub : Type) where
  id : String
  kind : CheckpointKind
  author : String
  description : String
  base_version : Int
  mutation : GraphMutation Sub
  previous_graph : Graph Sub
  resulting_version : Int

/-- A shared graph document: the graph, its version, its proposals and the
checkpoints of its collaboration state. -/
structure GraphSession (Sub Diag : Type) where
  id : String
  graph : Graph Sub := {}
  version : Int := 0
  proposals : Dict String (StoredProposal Sub Diag) := Dict.empty
  checkpoints : Dict String (Checkpoint Sub) := Dict.empty

/-- The session `SessionStore.create` stores: version 0 and no proposals. -/
def GraphSession.new {Sub Diag : Type} (id : String) (graph : Graph Sub) :
    GraphSession Sub Diag := { id := id, graph := graph }

/-- The events published to the watchers of a session. -/
inductive SessionEvent where
  | graph_replaced (session_id : String) (version : Int)
  | proposal_added (session_id proposal_id : String)
  | proposal_accepted (session_id proposal_id : String) (version : Int) (checkpoint_id : String)
  | proposal_rejected (session_id proposal_id : String)
  | graph_changed (session_id : String) (version : Int)
      (checkpoint_id author description : String)
  | graph_reverted (session_id : String) (version : Int)
      (checkpoint_id reverted_checkpoint_id author description : String)
  deriving DecidableEq, Repr

/-- A subscriber queue, with everything put into it so far. -/
structure Subscriber where
  id : Nat
  events : List SessionEvent := []
  deriving DecidableEq, Repr

def Subscriber.put (q : Subscriber) (event : SessionEvent) : Subscriber :=
  { q with events := q.events ++ [event] }

inductive SessionError where
  | unknown_session (session_id : String)
  | unknown_proposal (session_id proposal_id : String)
  | stale_version (session_id : String) (expected current : Int)
  | proposal_already_resolved (session_id proposal_id : String) (status : ProposalStatus)
  | unknown_checkpoint (session_id checkpoint_id : String)
  | mutation (e : MutationError)
  | validation_error
  | diagnostics_error
  deriving DecidableEq, Repr

/-- `SessionStore`: the sessions and, by session id, their subscribers. -/
structure SessionStore (Sub Diag : Type) where
  sessions : Dict String (GraphSession Sub Diag) := Dict.empty
  subscribers : Dict String (List Subscriber) := Dict.empty

/-- What the store calls for: the node registry, and the validation of a
mutated graph, which gives diagnostics or raises. -/
structure Validation (Sub Diag : Type) where
  registry : NodeRegistry
  mutation_error : MutationError → Diag
  run_validate : Graph Sub → Option Diag

/-- A value handed in where a text belongs: a string, another value that
counts as false, or any other value. -/
inductive TextArg where
  | str (s : String)
  | falsy
  | other
  deriving DecidableEq, Repr

/-- `description or fallback`. -/
def TextArg.or (a : TextArg) (fallback : String) : TextArg :=
  match a with
  | .str s => if s = "" then .str fallback else .str s
  | .falsy => .str fallback
  | .other => .other

variable {Sub Diag : Type}

/-- The validated constructor: author and description must be strings. -/
def Checkpoint.new (id : String) (kind : CheckpointKind) (author description : TextArg)
    (base_version : Int) (mutation : GraphMutation Sub) (previous_graph : Graph Sub)
    (resulting_version : Int) : Except SessionError (Checkpoint Sub) :=
  match author, description with
  | .str author, .str description =>
      .ok { id := id, kind := kind, author := author, description := description
            base_version := base_version, mutation := mutation
            previous_graph := previous_graph, resulting_version := resulting_version }
  | _, _ => .error .validation_error

/-- `propose_diagnostics`, which catches a `MutationError` and nothing else. -/
def propose_diagnostics (v : Validation Sub Diag) (g : Graph Sub) (m : GraphMutation Sub) :
    Except SessionError Diag :=
  match apply_mutation v.registry g m with
  | .error e => if e.is_mutation_error then .ok (v.mutation_error e) else .error (.mutation e)
  | .ok mutated =>
      match v.run_validate mutated with
      | some d => .ok d
      | none => .error .diagnostics_error

/-! ## The methods of the store -/

section Methods

open Transaction

/-- A method of the store. -/
abbrev StoreM (Sub Diag : Type) := Transaction (SessionStore Sub Diag) SessionError

def SessionStore.get (session_id : String) : StoreM Sub Diag (GraphSession Sub Diag) := do
  let st ← read
  match st.sessions.get? session_id with
  | none => raise (.unknown_session session_id)
  | some session => return session

/-- An assignment to attributes of the live session object. -/
def SessionStore.assign (session_id : String)
    (f : GraphSession Sub Diag → GraphSession Sub Diag) : StoreM Sub Diag Unit :=
  write fun st => { st with sessions := st.sessions.modify session_id f }

/-- `_publish`: push an event to every live subscriber. -/
def SessionStore.publish (session_id : String) (event : SessionEvent) : StoreM Sub Diag Unit :=
  write fun st =>
    { st with subscribers := st.subscribers.modify session_id (·.map (·.put event)) }

/-- `subscribe`: register a new queue. -/
def SessionStore.subscribe (session_id : String) (queue : Nat) : StoreM Sub Diag Unit := do
  let _ ← get session_id
  write fun st =>
    let qs := (st.subscribers.get? session_id).getD []
    { st with subscribers := st.subscribers.set session_id (qs ++ [{ id := queue }]) }

/-- `unsubscribe`: drop a queue, and nothing when it is already gone. -/
def SessionStore.unsubscribe (session_id : String) (queue : Nat) : StoreM Sub Diag Unit :=
  write fun st =>
    { st with subscribers := st.subscribers.modify session_id (·.eraseP (·.id = queue)) }

def SessionStore.replace_graph (session_id : String) (graph : Graph Sub)
    (expected_version : Int) : StoreM Sub Diag Unit := do
  let session ← get session_id
  check (session.version = expected_version)
    (.stale_version session_id expected_version session.version)
  assign session_id fun s => { s with graph := graph }
  assign session_id fun s => { s with version := s.version + 1 }
  publish session_id (.graph_replaced session_id (session.version + 1))

def SessionStore.add_proposal (v : Validation Sub Diag) (session_id : String)
    (mutation : GraphMutation Sub) (proposal_id : String) : StoreM Sub Diag Unit := do
  let session ← get session_id
  check (mutation.base_version = session.version)
    (.stale_version session_id mutation.base_version session.version)
  let diagnostics ← lift (propose_diagnostics v session.graph mutation)
  let proposal := { id := proposal_id, mutation := mutation, diagnostics := diagnostics }
  assign session_id fun s => { s with proposals := s.proposals.set proposal_id proposal }
  publish session_id (.proposal_added session_id proposal_id)

/-- `_get_proposal`. -/
def GraphSession.get_proposal (session : GraphSession Sub Diag) (proposal_id : String) :
    Except SessionError (StoredProposal Sub Diag) :=
  match session.proposals.get? proposal_id with
  | none => .error (.unknown_proposal session.id proposal_id)
  | some proposal => .ok proposal

/-- The assignment to the status of a stored proposal. -/
def GraphSession.resolve (session : GraphSession Sub Diag) (proposal_id : String)
    (status : ProposalStatus) : GraphSession Sub Diag :=
  { session with
    proposals := session.proposals.modify proposal_id fun p => { p with status := status } }

def SessionStore.accept_proposal (v : Validation Sub Diag) (session_id proposal_id : String)
    (checkpoint_id : String) : StoreM Sub Diag Unit := do
  let session ← get session_id
  let proposal ← lift (session.get_proposal proposal_id)
  check (proposal.status = .PENDING)
    (.proposal_already_resolved session_id proposal_id proposal.status)
  check (proposal.mutation.base_version = session.version)
    (.stale_version session_id proposal.mutation.base_version session.version)
  let new_graph ← lift
    ((apply_mutation v.registry session.graph proposal.mutation).mapError .mutation)
  assign session_id fun s => { s with graph := new_graph }
  assign session_id fun s => { s with version := s.version + 1 }
  assign session_id fun s => s.resolve proposal_id .ACCEPTED
  let checkpoint ← lift (Checkpoint.new checkpoint_id .EDIT (.str "human")
    (.str proposal.mutation.description) session.version proposal.mutation session.graph
    (session.version + 1))
  assign session_id fun s =>
    { s with checkpoints := s.checkpoints.set checkpoint_id checkpoint }
  publish session_id
    (.proposal_accepted session_id proposal_id (session.version + 1) checkpoint_id)

def SessionStore.reject_proposal (session_id proposal_id : String) : StoreM Sub Diag Unit := do
  let session ← get session_id
  let proposal ← lift (session.get_proposal proposal_id)
  check (proposal.status = .PENDING)
    (.proposal_already_resolved session_id proposal_id proposal.status)
  assign session_id fun s => s.resolve proposal_id .REJECTED
  publish session_id (.proposal_rejected session_id proposal_id)

/-- `apply_direct_mutation`: the checkpoint is built before the session is
touched, because the author and description of the caller may fail it. -/
def SessionStore.apply_direct_mutation (v : Validation Sub Diag) (session_id : String)
    (mutation : GraphMutation Sub) (author description : TextArg) (checkpoint_id : String) :
    StoreM Sub Diag Unit := do
  let session ← get session_id
  check (mutation.base_version = session.version)
    (.stale_version session_id mutation.base_version session.version)
  let new_graph ← lift ((apply_mutation v.registry session.graph mutation).mapError .mutation)
  let checkpoint ← lift (Checkpoint.new checkpoint_id .EDIT author
    (description.or mutation.description) session.version mutation session.graph
    (session.version + 1))
  assign session_id fun s => { s with graph := new_graph }
  assign session_id fun s => { s with version := s.version + 1 }
  assign session_id fun s =>
    { s with checkpoints := s.checkpoints.set checkpoint_id checkpoint }
  publish session_id (.graph_changed session_id (session.version + 1) checkpoint_id
    checkpoint.author checkpoint.description)

/-- The checkpoint named by a call. -/
def GraphSession.get_checkpoint (session : GraphSession Sub Diag) (session_id checkpoint_id : String) :
    Except SessionError (Checkpoint Sub) :=
  match session.checkpoints.get? checkpoint_id with
  | none => .error (.unknown_checkpoint session_id checkpoint_id)
  | some checkpoint => .ok checkpoint

def SessionStore.revert_checkpoint (session_id checkpoint_id : String)
    (revert_id : String) : StoreM Sub Diag Unit := do
  let session ← get session_id
  let checkpoint ← lift (session.get_checkpoint session_id checkpoint_id)
  let inverse_mutation ← lift
    ((invert_mutation checkpoint.previous_graph checkpoint.mutation).mapError .mutation)
  assign session_id fun s => { s with graph := checkpoint.previous_graph }
  assign session_id fun s => { s with version := s.version + 1 }
  let reverted ← lift (Checkpoint.new revert_id .REVERT (.str checkpoint.author)
    (.str ("Revert: " ++ checkpoint.description)) session.version inverse_mutation session.graph
    (session.version + 1))
  assign session_id fun s => { s with checkpoints := s.checkpoints.set revert_id reverted }
  publish session_id (.graph_reverted session_id (session.version + 1) revert_id checkpoint_id
    reverted.author reverted.description)

end Methods

end EmergentFlow
