import EmergentFlow.Collab.Session

/-!
# Collab — SessionStep

What one call to the session store can do. `Call.atomic`: a call that
raises leaves the store as it was. `Call.run_cases`: a call that returns
moves one session by a `SessionStep` and pushes one event to its
subscribers, or edits the subscriber list.
-/

namespace EmergentFlow

open Transaction

variable {Sub Diag : Type}

/-- One call of a client to the store. -/
inductive Call (Sub : Type) where
  | replace_graph (session_id : String) (graph : Graph Sub) (expected_version : Int)
  | add_proposal (session_id : String) (mutation : GraphMutation Sub) (proposal_id : String)
  | accept_proposal (session_id proposal_id checkpoint_id : String)
  | reject_proposal (session_id proposal_id : String)
  | apply_direct_mutation (session_id : String) (mutation : GraphMutation Sub)
      (author description : TextArg) (checkpoint_id : String)
  | revert_checkpoint (session_id checkpoint_id revert_id : String)
  | subscribe (session_id : String) (queue : Nat)
  | unsubscribe (session_id : String) (queue : Nat)

def Call.run (v : Validation Sub Diag) : Call Sub → StoreM Sub Diag Unit
  | .replace_graph sid g n => SessionStore.replace_graph sid g n
  | .add_proposal sid m pid => SessionStore.add_proposal v sid m pid
  | .accept_proposal sid pid cid => SessionStore.accept_proposal v sid pid cid
  | .reject_proposal sid pid => SessionStore.reject_proposal sid pid
  | .apply_direct_mutation sid m author description cid =>
      SessionStore.apply_direct_mutation v sid m author description cid
  | .revert_checkpoint sid cid rid => SessionStore.revert_checkpoint sid cid rid
  | .subscribe sid q => SessionStore.subscribe sid q
  | .unsubscribe sid q => SessionStore.unsubscribe sid q

def Call.session_id : Call Sub → String
  | .replace_graph sid _ _ | .add_proposal sid _ _ | .accept_proposal sid _ _
  | .reject_proposal sid _ | .apply_direct_mutation sid _ _ _ _
  | .revert_checkpoint sid _ _ | .subscribe sid _ | .unsubscribe sid _ => sid

/-! ## Atomicity -/

theorem SessionStore.get_reads (session_id : String) :
    Reads (SessionStore.get session_id : StoreM Sub Diag _) := by
  apply Reads.read.bind
  intro st
  split
  · exact .raise _
  · exact .pure _

theorem SessionStore.assign_total (session_id : String)
    (f : GraphSession Sub Diag → GraphSession Sub Diag) : Total (assign session_id f) :=
  .write _

theorem SessionStore.publish_total (session_id : String) (event : SessionEvent) :
    Total (publish session_id event : StoreM Sub Diag Unit) := .write _

/-- A call that raises leaves the whole store, subscriber queues included,
as it was. -/
theorem Call.atomic (v : Validation Sub Diag) (c : Call Sub) : Atomic (c.run v) := by
  cases c with
  | replace_graph sid g n =>
      refine (SessionStore.get_reads sid).bind_atomic fun session => ?_
      refine (Reads.check _ _).bind_atomic fun _ => Total.atomic ?_
      exact (SessionStore.assign_total _ _).bind fun _ =>
        (SessionStore.assign_total _ _).bind fun _ => SessionStore.publish_total _ _
  | add_proposal sid m pid =>
      refine (SessionStore.get_reads sid).bind_atomic fun session => ?_
      refine (Reads.check _ _).bind_atomic fun _ => (Reads.lift _).bind_atomic fun _ => ?_
      exact ((SessionStore.assign_total _ _).bind fun _ => SessionStore.publish_total _ _).atomic
  | accept_proposal sid pid cid =>
      refine (SessionStore.get_reads sid).bind_atomic fun session => ?_
      refine (Reads.lift _).bind_atomic fun proposal => ?_
      refine (Reads.check _ _).bind_atomic fun _ => (Reads.check _ _).bind_atomic fun _ => ?_
      refine (Reads.lift _).bind_atomic fun new_graph => Total.atomic ?_
      -- the checkpoint is built after the writes, from strings only
      exact (SessionStore.assign_total _ _).bind fun _ =>
        (SessionStore.assign_total _ _).bind fun _ =>
        (SessionStore.assign_total _ _).bind fun _ => (Total.lift _).bind fun _ =>
        (SessionStore.assign_total _ _).bind fun _ => SessionStore.publish_total _ _
  | reject_proposal sid pid =>
      refine (SessionStore.get_reads sid).bind_atomic fun session => ?_
      refine (Reads.lift _).bind_atomic fun proposal => ?_
      refine (Reads.check _ _).bind_atomic fun _ => Total.atomic ?_
      exact (SessionStore.assign_total _ _).bind fun _ => SessionStore.publish_total _ _
  | apply_direct_mutation sid m author description cid =>
      refine (SessionStore.get_reads sid).bind_atomic fun session => ?_
      refine (Reads.check _ _).bind_atomic fun _ => (Reads.lift _).bind_atomic fun new_graph => ?_
      refine (Reads.lift _).bind_atomic fun checkpoint => Total.atomic ?_
      exact (SessionStore.assign_total _ _).bind fun _ =>
        (SessionStore.assign_total _ _).bind fun _ =>
        (SessionStore.assign_total _ _).bind fun _ => SessionStore.publish_total _ _
  | revert_checkpoint sid cid rid =>
      refine (SessionStore.get_reads sid).bind_atomic fun session => ?_
      refine (Reads.lift _).bind_atomic fun checkpoint => ?_
      refine (Reads.lift _).bind_atomic fun inverse => Total.atomic ?_
      -- the author of a stored checkpoint is a string
      exact (SessionStore.assign_total _ _).bind fun _ =>
        (SessionStore.assign_total _ _).bind fun _ => (Total.lift _).bind fun _ =>
        (SessionStore.assign_total _ _).bind fun _ => SessionStore.publish_total _ _
  | subscribe sid q =>
      exact (SessionStore.get_reads sid).bind_atomic fun _ => (Total.write _).atomic
  | unsubscribe sid q => exact (Total.write _).atomic

/-! ## Calls that return -/

/-- What a call that returns does to its session, and the event it
publishes. -/
inductive SessionStep (v : Validation Sub Diag) :
    Call Sub → GraphSession Sub Diag → GraphSession Sub Diag → SessionEvent → Prop where
  | replaced {sid : String} {g : Graph Sub} {s : GraphSession Sub Diag} :
      SessionStep v (.replace_graph sid g s.version) s
        { s with graph := g, version := s.version + 1 }
        (.graph_replaced sid (s.version + 1))
  | proposed {sid pid : String} {m : GraphMutation Sub} {d : Diag} {s : GraphSession Sub Diag}
      (base : m.base_version = s.version) :
      SessionStep v (.add_proposal sid m pid) s
        { s with proposals :=
            s.proposals.set pid { id := pid, mutation := m, diagnostics := d } }
        (.proposal_added sid pid)
  | accepted {sid pid cid : String} {p : StoredProposal Sub Diag} {g : Graph Sub}
      {c : Checkpoint Sub} {s : GraphSession Sub Diag} (found : s.proposals.get? pid = some p)
      (pending : p.status = .PENDING) (base : p.mutation.base_version = s.version)
      (applied : apply_mutation v.registry s.graph p.mutation = .ok g) :
      SessionStep v (.accept_proposal sid pid cid) s
        { s with
          graph := g
          version := s.version + 1
          proposals := (s.resolve pid .ACCEPTED).proposals
          checkpoints := s.checkpoints.set cid c }
        (.proposal_accepted sid pid (s.version + 1) cid)
  | rejected {sid pid : String} {p : StoredProposal Sub Diag} {s : GraphSession Sub Diag}
      (found : s.proposals.get? pid = some p) (pending : p.status = .PENDING) :
      SessionStep v (.reject_proposal sid pid) s (s.resolve pid .REJECTED)
        (.proposal_rejected sid pid)
  | changed {sid cid : String} {m : GraphMutation Sub} {author description : TextArg}
      {g : Graph Sub} {c : Checkpoint Sub} {s : GraphSession Sub Diag}
      (base : m.base_version = s.version)
      (applied : apply_mutation v.registry s.graph m = .ok g) :
      SessionStep v (.apply_direct_mutation sid m author description cid) s
        { s with
          graph := g
          version := s.version + 1
          checkpoints := s.checkpoints.set cid c }
        (.graph_changed sid (s.version + 1) cid c.author c.description)
  | reverted {sid cid rid : String} {c k : Checkpoint Sub} {s : GraphSession Sub Diag}
      (found : s.checkpoints.get? cid = some c) :
      SessionStep v (.revert_checkpoint sid cid rid) s
        { s with
          graph := c.previous_graph
          version := s.version + 1
          checkpoints := s.checkpoints.set rid k }
        (.graph_reverted sid (s.version + 1) rid cid k.author k.description)

/-- The store moves one session from `s` to `s'` and pushes `event` to its
subscribers; nothing else changes. -/
structure Moved (sid : String) (event : SessionEvent) (s s' : GraphSession Sub Diag)
    (st st' : SessionStore Sub Diag) : Prop where
  before : st.sessions.get? sid = some s
  after : st'.sessions.get? sid = some s'
  others : ∀ k ≠ sid, st'.sessions.get? k = st.sessions.get? k
  published : st'.subscribers = st.subscribers.modify sid (·.map (·.put event))

theorem SessionStore.get_eq_ok {sid : String} {st st' : SessionStore Sub Diag}
    {s : GraphSession Sub Diag} :
    SessionStore.get sid st = (.ok s, st') ↔ st.sessions.get? sid = some s ∧ st' = st := by
  simp only [SessionStore.get, bind_eq_ok, read_apply, Prod.mk.injEq, Except.ok.injEq]
  constructor
  · rintro ⟨a, t, ⟨rfl, rfl⟩, h⟩
    cases hs : st.sessions.get? sid with
    | none => simp [hs] at h
    | some s' =>
        simp only [hs, pure_apply, Prod.mk.injEq, Except.ok.injEq] at h
        exact ⟨by rw [h.1], h.2.symm⟩
  · rintro ⟨hs, rfl⟩
    exact ⟨st', st', ⟨rfl, rfl⟩, by simp [hs]⟩

theorem GraphSession.get_proposal_eq_ok {s : GraphSession Sub Diag} {pid : String}
    {p : StoredProposal Sub Diag} :
    s.get_proposal pid = .ok p ↔ s.proposals.get? pid = some p := by
  rw [GraphSession.get_proposal]
  cases s.proposals.get? pid <;> simp

theorem GraphSession.get_checkpoint_eq_ok {s : GraphSession Sub Diag} {sid cid : String}
    {c : Checkpoint Sub} :
    s.get_checkpoint sid cid = .ok c ↔ s.checkpoints.get? cid = some c := by
  rw [GraphSession.get_checkpoint]
  cases s.checkpoints.get? cid <;> simp

/-- A run of assignments to one session followed by a publication. -/
theorem Moved.of_get? (sid : String) {event : SessionEvent} {s s' : GraphSession Sub Diag}
    {st st' : SessionStore Sub Diag} (hs : st.sessions.get? sid = some s)
    (hself : st'.sessions.get? sid = some s')
    (hothers : ∀ k, sid ≠ k → st'.sessions.get? k = st.sessions.get? k)
    (hsubscribers : st'.subscribers = st.subscribers.modify sid (·.map (·.put event))) :
    Moved sid event s s' st st' :=
  ⟨hs, hself, fun k hk => hothers k (Ne.symm hk), hsubscribers⟩

section Specs

variable {v : Validation Sub Diag} {st st' : SessionStore Sub Diag}

/-- What a call to an editing method does when it returns. -/
def Steps (v : Validation Sub Diag) (c : Call Sub) (st st' : SessionStore Sub Diag) : Prop :=
  ∃ s s' event, SessionStep v c s s' event ∧ Moved c.session_id event s s' st st'

theorem replace_graph_spec {sid : String} {g : Graph Sub} {n : Int}
    (h : SessionStore.replace_graph sid g n st = (.ok (), st')) :
    Steps v (.replace_graph sid g n) st st' := by
  simp only [SessionStore.replace_graph, SessionStore.assign, SessionStore.publish, bind_eq_ok,
    SessionStore.get_eq_ok, check_eq_ok, write_eq_ok, decide_eq_true_eq] at h
  obtain ⟨s, _, ⟨hs, rfl⟩, _, _, ⟨rfl, rfl⟩, _, _, rfl, _, _, rfl, rfl⟩ := h
  refine ⟨s, _, _, .replaced, .of_get? sid hs ?_ ?_ rfl⟩
  · simp [Dict.get?_modify, hs]
  · intro k hk
    simp [Dict.get?_modify, hk]

theorem replace_graph_returns {sid : String} {g : Graph Sub} {n : Int}
    (h : SessionStore.replace_graph sid g n st = (.ok (), st')) :
    ∃ s s', st.sessions.get? sid = some s ∧ s.version = n ∧
      st'.sessions.get? sid = some s' ∧ s'.version = n + 1 ∧ s'.graph = g := by
  simp only [SessionStore.replace_graph, SessionStore.assign, SessionStore.publish, bind_eq_ok,
    SessionStore.get_eq_ok, check_eq_ok, write_eq_ok, decide_eq_true_eq] at h
  obtain ⟨s, _, ⟨hs, rfl⟩, _, _, ⟨rfl, rfl⟩, _, _, rfl, _, _, rfl, rfl⟩ := h
  exact ⟨s, { s with graph := g, version := s.version + 1 }, hs, rfl,
    by simp [Dict.get?_modify, hs], rfl, rfl⟩

/-- A replacement that expects another version raises and changes nothing. -/
theorem replace_graph_stale {sid : String} {g : Graph Sub} {n : Int}
    {s : GraphSession Sub Diag} (hs : st.sessions.get? sid = some s) (hn : s.version ≠ n) :
    SessionStore.replace_graph sid g n st = (.error (.stale_version sid n s.version), st) := by
  rw [SessionStore.replace_graph, bind_of_ok (SessionStore.get_eq_ok.mpr ⟨hs, rfl⟩)]
  apply bind_eq_error.mpr
  left
  simp [check, hn]

theorem add_proposal_spec {sid pid : String} {m : GraphMutation Sub}
    (h : SessionStore.add_proposal v sid m pid st = (.ok (), st')) :
    Steps v (.add_proposal sid m pid) st st' := by
  simp only [SessionStore.add_proposal, SessionStore.assign, SessionStore.publish, bind_eq_ok,
    SessionStore.get_eq_ok, check_eq_ok, lift_eq_ok, write_eq_ok, decide_eq_true_eq] at h
  obtain ⟨s, _, ⟨hs, rfl⟩, _, _, ⟨hbase, rfl⟩, d, _, ⟨-, rfl⟩, _, _, rfl, rfl⟩ := h
  refine ⟨s, _, _, .proposed (d := d) hbase, .of_get? sid hs ?_ ?_ rfl⟩
  · simp [Dict.get?_modify, hs]
  · intro k hk
    simp [Dict.get?_modify, hk]

theorem accept_proposal_spec {sid pid cid : String}
    (h : SessionStore.accept_proposal v sid pid cid st = (.ok (), st')) :
    Steps v (.accept_proposal sid pid cid) st st' := by
  simp only [SessionStore.accept_proposal, SessionStore.assign, SessionStore.publish, bind_eq_ok,
    SessionStore.get_eq_ok, check_eq_ok, lift_eq_ok, write_eq_ok, decide_eq_true_eq,
    GraphSession.get_proposal_eq_ok, Checks.mapError_eq_ok] at h
  obtain ⟨s, _, ⟨hs, rfl⟩, p, _, ⟨hp, rfl⟩, _, _, ⟨hpending, rfl⟩, _, _, ⟨hbase, rfl⟩, g, _,
    ⟨hg, rfl⟩, _, _, rfl, _, _, rfl, _, _, rfl, c, _, ⟨-, rfl⟩, _, _, rfl, rfl⟩ := h
  refine ⟨s, _, _, .accepted (c := c) hp hpending hbase hg, .of_get? sid hs ?_ ?_ rfl⟩
  · simp [Dict.get?_modify, hs, GraphSession.resolve]
  · intro k hk
    simp [Dict.get?_modify, hk]

theorem reject_proposal_spec {sid pid : String}
    (h : SessionStore.reject_proposal sid pid st = (.ok (), st')) :
    Steps v (.reject_proposal sid pid) st st' := by
  simp only [SessionStore.reject_proposal, SessionStore.assign, SessionStore.publish, bind_eq_ok,
    SessionStore.get_eq_ok, check_eq_ok, lift_eq_ok, write_eq_ok, decide_eq_true_eq,
    GraphSession.get_proposal_eq_ok] at h
  obtain ⟨s, _, ⟨hs, rfl⟩, p, _, ⟨hp, rfl⟩, _, _, ⟨hpending, rfl⟩, _, _, rfl, rfl⟩ := h
  refine ⟨s, _, _, .rejected hp hpending, .of_get? sid hs ?_ ?_ rfl⟩
  · simp [Dict.get?_modify, hs]
  · intro k hk
    simp [Dict.get?_modify, hk]

theorem apply_direct_mutation_spec {sid cid : String} {m : GraphMutation Sub}
    {author description : TextArg}
    (h : SessionStore.apply_direct_mutation v sid m author description cid st = (.ok (), st')) :
    Steps v (.apply_direct_mutation sid m author description cid) st st' := by
  simp only [SessionStore.apply_direct_mutation, SessionStore.assign, SessionStore.publish,
    bind_eq_ok, SessionStore.get_eq_ok, check_eq_ok, lift_eq_ok, write_eq_ok, decide_eq_true_eq,
    Checks.mapError_eq_ok] at h
  obtain ⟨s, _, ⟨hs, rfl⟩, _, _, ⟨hbase, rfl⟩, g, _, ⟨hg, rfl⟩, c, _, ⟨-, rfl⟩, _, _, rfl,
    _, _, rfl, _, _, rfl, rfl⟩ := h
  refine ⟨s, _, _, .changed (c := c) hbase hg, .of_get? sid hs ?_ ?_ rfl⟩
  · simp [Dict.get?_modify, hs]
  · intro k hk
    simp [Dict.get?_modify, hk]

theorem revert_checkpoint_spec {sid cid rid : String}
    (h : SessionStore.revert_checkpoint sid cid rid st = (.ok (), st')) :
    Steps v (.revert_checkpoint sid cid rid) st st' := by
  simp only [SessionStore.revert_checkpoint, SessionStore.assign, SessionStore.publish,
    bind_eq_ok, SessionStore.get_eq_ok, lift_eq_ok, write_eq_ok,
    GraphSession.get_checkpoint_eq_ok, Checks.mapError_eq_ok] at h
  obtain ⟨s, _, ⟨hs, rfl⟩, c, _, ⟨hc, rfl⟩, _, _, ⟨-, rfl⟩, _, _, rfl, _, _, rfl, c', _,
    ⟨-, rfl⟩, _, _, rfl, rfl⟩ := h
  refine ⟨s, _, _, .reverted (k := c') hc, .of_get? sid hs ?_ ?_ rfl⟩
  · simp [Dict.get?_modify, hs]
  · intro k hk
    simp [Dict.get?_modify, hk]

/-- Every call that returns steps its session, or registers or drops a
subscriber queue. -/
theorem Call.run_cases {c : Call Sub} (h : c.run v st = (.ok (), st')) :
    Steps v c st st' ∨
      (∃ sid q, c = .subscribe sid q ∧ st' = { st with
        subscribers := st.subscribers.set sid
          ((st.subscribers.get? sid).getD [] ++ [{ id := q }]) }) ∨
      ∃ sid q, c = .unsubscribe sid q ∧ st' = { st with
        subscribers := st.subscribers.modify sid (·.eraseP (·.id = q)) } := by
  cases c with
  | replace_graph sid g n => exact .inl (replace_graph_spec h)
  | add_proposal sid m pid => exact .inl (add_proposal_spec h)
  | accept_proposal sid pid cid => exact .inl (accept_proposal_spec h)
  | reject_proposal sid pid => exact .inl (reject_proposal_spec h)
  | apply_direct_mutation sid m author description cid =>
      exact .inl (apply_direct_mutation_spec h)
  | revert_checkpoint sid cid rid => exact .inl (revert_checkpoint_spec h)
  | subscribe sid q =>
      simp only [Call.run, SessionStore.subscribe, bind_eq_ok, SessionStore.get_eq_ok,
        write_eq_ok] at h
      obtain ⟨s, _, ⟨-, rfl⟩, rfl⟩ := h
      exact .inr (.inl ⟨sid, q, rfl, rfl⟩)
  | unsubscribe sid q =>
      simp only [Call.run, SessionStore.unsubscribe, write_eq_ok] at h
      exact .inr (.inr ⟨sid, q, rfl, h⟩)

end Specs

end EmergentFlow
