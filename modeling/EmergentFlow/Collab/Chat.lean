import EmergentFlow.Collab.Records

/-!
# Collab — Chat

The chat turns of a session (`collab/session.py`, `collab/chat_runner.py`).
A turn is served by a runner in the background, which narrates, resolves
its turn and reports the thread id of its backend. It writes through the
session store at any later time, also after the turn was interrupted or the
chat ended.

`ChatLaw` is what the chat of a session promises over a run of calls in any
order, and `chat_law_iff` says which calls break it.
-/

namespace EmergentFlow

open Transaction

variable {Sub Diag : Type}

/-! ## The methods of the store -/

/-- An assignment to the first turn with this id. -/
def update_turn (turn_id : String) (f : ChatTurn → ChatTurn) : List ChatTurn → List ChatTurn
  | [] => []
  | t :: rest => if t.id = turn_id then f t :: rest else t :: update_turn turn_id f rest

namespace CollabStore

/-- `_get_chat_turn`: the first turn with this id. -/
def get_chat_turn (session : CollabSession Sub Diag) (turn_id : String) :
    Except CollabError ChatTurn :=
  Checks.require (session.collab.chat.turns.find? (·.id = turn_id))
    (.unknown_chat_turn turn_id session.id)

/-- An assignment inside the chat state of the live session. -/
def assign_chat (session_id : String) (f : ChatState → ChatState) : CollabM Sub Diag Unit :=
  assign session_id fun c => { c with chat := f c.chat }

/-- No other backend is active. -/
def check_backend (session_id : String) (chat : ChatState) (backend : String) :
    Except CollabError Unit :=
  match chat.backend with
  | some active =>
      Checks.guard (active = backend) (.chat_backend_active session_id active backend)
  | none => .ok ()

/-- The last turn is not running. -/
def check_idle (session_id : String) (chat : ChatState) : Except CollabError Unit :=
  match chat.turns.getLast? with
  | some last => Checks.guard (last.status ≠ .RUNNING) (.chat_turn_running session_id last.id)
  | none => .ok ()

def start_chat_turn (session_id backend user_message turn_id : String) : CollabM Sub Diag Unit := do
  let session ← get session_id
  lift (check_backend session_id session.collab.chat backend)
  lift (check_idle session_id session.collab.chat)
  assign_chat session_id fun chat => { chat with
    backend := some (chat.backend.getD backend)
    turns := chat.turns ++ [{ id := turn_id, backend := backend, user_message := user_message }] }
  publish session_id (.chat_turn_started turn_id)

def append_chat_narration (session_id turn_id text : String) : CollabM Sub Diag Unit := do
  let session ← get session_id
  let turn ← lift (get_chat_turn session turn_id)
  check (turn.status = .RUNNING) (.chat_turn_already_resolved session_id turn_id turn.status)
  assign_chat session_id fun chat => { chat with
    turns := update_turn turn_id (fun t => { t with narration := t.narration ++ [text] })
      chat.turns }
  publish session_id (.chat_narration_added turn_id)

/-- `_resolve_chat_turn`: the one-shot transition from RUNNING. -/
def resolve_chat_turn (session_id turn_id : String) (status : ChatTurnStatus)
    (event : CollabEvent) (agent_message error : Option String) : CollabM Sub Diag Unit := do
  let session ← get session_id
  let turn ← lift (get_chat_turn session turn_id)
  check (turn.status = .RUNNING) (.chat_turn_already_resolved session_id turn_id turn.status)
  assign_chat session_id fun chat => { chat with
    turns := update_turn turn_id (fun t => { t with
      status := status
      agent_message := agent_message.or t.agent_message
      error := error.or t.error }) chat.turns }
  publish session_id event

def complete_chat_turn (session_id turn_id agent_message : String) : CollabM Sub Diag Unit :=
  resolve_chat_turn session_id turn_id .COMPLETED (.chat_turn_completed turn_id)
    (some agent_message) none

def fail_chat_turn (session_id turn_id error : String) : CollabM Sub Diag Unit :=
  resolve_chat_turn session_id turn_id .FAILED (.chat_turn_failed turn_id) none (some error)

def interrupt_chat_turn (session_id turn_id : String) : CollabM Sub Diag Unit :=
  resolve_chat_turn session_id turn_id .INTERRUPTED (.chat_turn_interrupted turn_id) none none

/-- `set_chat_thread_id`, which publishes nothing. -/
def set_chat_thread_id (session_id thread_id : String) : CollabM Sub Diag Unit := do
  let _ ← get session_id
  assign_chat session_id fun chat => { chat with backend_thread_id := some thread_id }

def end_chat (session_id : String) : CollabM Sub Diag Unit := do
  let _ ← get session_id
  assign_chat session_id fun chat => { chat with
    backend := none, backend_thread_id := none, active_persona := none }
  publish session_id .chat_ended

end CollabStore

/-! ## Calls -/

/-- A call on the chat of a session. A thread id is reported by a runner,
given by the position of the turn it serves. -/
inductive ChatCall where
  | start (session_id backend user_message turn_id : String)
  | narrate (session_id turn_id text : String)
  | complete (session_id turn_id agent_message : String)
  | fail (session_id turn_id error : String)
  | interrupt (session_id turn_id : String)
  | set_thread_id (session_id thread_id : String) (runner : Nat)
  | end_chat (session_id : String)
  deriving DecidableEq, Repr

namespace ChatCall

def run : ChatCall → CollabStore.CollabM Sub Diag Unit
  | .start sid backend message tid => CollabStore.start_chat_turn sid backend message tid
  | .narrate sid tid text => CollabStore.append_chat_narration sid tid text
  | .complete sid tid message => CollabStore.complete_chat_turn sid tid message
  | .fail sid tid error => CollabStore.fail_chat_turn sid tid error
  | .interrupt sid tid => CollabStore.interrupt_chat_turn sid tid
  | .set_thread_id sid thread_id _ => CollabStore.set_chat_thread_id sid thread_id
  | .end_chat sid => CollabStore.end_chat sid

def session_id : ChatCall → String
  | .start sid _ _ _ | .narrate sid _ _ | .complete sid _ _ | .fail sid _ _ | .interrupt sid _
  | .set_thread_id sid _ _ | .end_chat sid => sid

/-- The store after a call, whether it returned or raised. -/
def after (st : CollabStore Sub Diag) (c : ChatCall) : CollabStore Sub Diag := (c.run st).2

def returns (st : CollabStore Sub Diag) (c : ChatCall) : Bool := (c.run st).1.isOk

/-- The calls that write the thread id. -/
def sets_thread : ChatCall → Bool
  | .set_thread_id .. | .end_chat .. => true
  | _ => false

end ChatCall

/-- What a call that returns does to the chat of its session. -/
inductive ChatStep : ChatCall → ChatState → ChatState → Prop where
  | started {sid backend message tid : String} {chat : ChatState}
      (same : ∀ b, chat.backend = some b → b = backend)
      (idle : ∀ last, chat.turns.getLast? = some last → last.status ≠ .RUNNING) :
      ChatStep (.start sid backend message tid) chat { chat with
        backend := some backend
        turns := chat.turns ++ [{ id := tid, backend := backend, user_message := message }] }
  | touched {c : ChatCall} {chat : ChatState} {k : Nat} {turn turn' : ChatTurn}
      (quiet : c.sets_thread = false) (found : chat.turns[k]? = some turn)
      (running : turn.status = .RUNNING) (backend : turn'.backend = turn.backend) :
      ChatStep c chat { chat with turns := chat.turns.set k turn' }
  | threaded {sid thread_id : String} {runner : Nat} {chat : ChatState} :
      ChatStep (.set_thread_id sid thread_id runner) chat
        { chat with backend_thread_id := some thread_id }
  | ended {sid : String} {chat : ChatState} :
      ChatStep (.end_chat sid) chat
        { chat with backend := none, backend_thread_id := none, active_persona := none }

section Specs

variable {st st' : CollabStore Sub Diag}

/-- Updating the first turn with an id sets the turn that lookup finds. -/
theorem update_turn_eq_set {tid : String} {f : ChatTurn → ChatTurn} {turns : List ChatTurn}
    {turn : ChatTurn} (h : turns.find? (·.id = tid) = some turn) :
    ∃ k : Nat, turns[k]? = some turn ∧ update_turn tid f turns = turns.set k (f turn) := by
  induction turns with
  | nil => cases h
  | cons t rest ih =>
      by_cases ht : t.id = tid
      · rw [List.find?_cons_of_pos (by simpa using ht), Option.some.injEq] at h
        subst h
        exact ⟨0, rfl, by rw [update_turn, if_pos ht, List.set_cons_zero]⟩
      · rw [List.find?_cons_of_neg (by simpa using ht)] at h
        obtain ⟨k, hk, heq⟩ := ih h
        exact ⟨k + 1, by rw [List.getElem?_cons_succ, hk],
          by rw [update_turn, if_neg ht, heq, List.set_cons_succ]⟩

theorem get_chat_turn_eq_ok {s : CollabSession Sub Diag} {tid : String} {turn : ChatTurn} :
    CollabStore.get_chat_turn s tid = .ok turn ↔
      s.collab.chat.turns.find? (·.id = tid) = some turn := by
  rw [CollabStore.get_chat_turn, Checks.require_eq_ok]

/-- What a call does to the chat of its session when it returns. -/
def ChatSteps (c : ChatCall) (st st' : CollabStore Sub Diag) : Prop :=
  ∃ s chat, st.sessions.get? c.session_id = some s ∧ ChatStep c s.collab.chat chat ∧
    st'.sessions.get? c.session_id = some { s with collab := { s.collab with chat := chat } } ∧
    ∀ k ≠ c.session_id, st'.sessions.get? k = st.sessions.get? k

theorem ChatSteps.of_updated {c : ChatCall} {s : CollabSession Sub Diag} {f : ChatState → ChatState}
    (hs : st.sessions.get? c.session_id = some s) (hstep : ChatStep c s.collab.chat (f s.collab.chat))
    (h : CollabStore.Updated c.session_id (fun c => { c with chat := f c.chat }) st st') :
    ChatSteps c st st' :=
  ⟨s, f s.collab.chat, hs, hstep, by rw [h.here, hs, Option.map_some], h.others⟩

/-- A method that assigns to the chat and then publishes. -/
theorem chat_updated {sid : String} (f : ChatState → ChatState) {event : CollabEvent} {u : Unit}
    (h : (do CollabStore.assign_chat sid f; CollabStore.publish sid event :
      CollabStore.CollabM Sub Diag Unit) st = (.ok u, st')) :
    CollabStore.Updated sid (fun c => { c with chat := f c.chat }) st st' :=
  CollabStore.updated_of_assign h

theorem start_chat_turn_spec {sid backend message tid : String}
    (h : CollabStore.start_chat_turn sid backend message tid st = (.ok (), st')) :
    ChatSteps (.start sid backend message tid) st st' := by
  simp only [CollabStore.start_chat_turn, bind_eq_ok (x := CollabStore.get sid),
    CollabStore.get_eq_ok, bind_eq_ok (x := lift _), lift_eq_ok] at h
  obtain ⟨s, _, ⟨hs, rfl⟩, _, _, ⟨hbackend, rfl⟩, _, _, ⟨hlast, rfl⟩, h⟩ := h
  have hsame : ∀ b, s.collab.chat.backend = some b → b = backend := by
    intro b hb
    simp only [CollabStore.check_backend, hb] at hbackend
    exact of_decide_eq_true (Checks.guard_eq_ok.mp hbackend)
  have hidle : ∀ last, s.collab.chat.turns.getLast? = some last → last.status ≠ .RUNNING := by
    intro last hl
    simp only [CollabStore.check_idle, hl] at hlast
    exact of_decide_eq_true (Checks.guard_eq_ok.mp hlast)
  refine ChatSteps.of_updated hs ?_ (chat_updated _ h)
  have hactive : s.collab.chat.backend.getD backend = backend := by
    cases hb : s.collab.chat.backend with
    | none => rfl
    | some b => exact hsame b hb
  simp only [hactive]
  exact .started hsame hidle

/-- The methods that look a running turn up and write to it. -/
theorem touched_spec (c : ChatCall) (tid : String) (f : ChatTurn → ChatTurn) {event : CollabEvent}
    {check_error : ChatTurn → CollabError} (quiet : c.sets_thread = false)
    (backend : ∀ t, (f t).backend = t.backend)
    (h : (do
      let session ← CollabStore.get c.session_id
      let turn ← lift (CollabStore.get_chat_turn session tid)
      check (turn.status = .RUNNING) (check_error turn)
      CollabStore.assign_chat c.session_id fun chat => { chat with
        turns := update_turn tid f chat.turns }
      CollabStore.publish c.session_id event : CollabStore.CollabM Sub Diag Unit) st
        = (.ok (), st')) : ChatSteps c st st' := by
  simp only [bind_eq_ok (x := CollabStore.get c.session_id), CollabStore.get_eq_ok,
    bind_eq_ok (x := lift _), lift_eq_ok, get_chat_turn_eq_ok, bind_eq_ok (x := check _ _),
    check_eq_ok, decide_eq_true_eq] at h
  obtain ⟨s, _, ⟨hs, rfl⟩, turn, _, ⟨hturn, rfl⟩, _, _, ⟨hrunning, rfl⟩, h⟩ := h
  obtain ⟨k, hk, heq⟩ := update_turn_eq_set (f := f) hturn
  refine ChatSteps.of_updated (f := fun chat => { chat with turns := update_turn tid f chat.turns })
    hs ?_ (chat_updated _ h)
  simp only [heq]
  exact .touched quiet hk hrunning (backend turn)

theorem resolved_spec (c : ChatCall) {tid : String} {status : ChatTurnStatus} {event : CollabEvent}
    {agent_message error : Option String} (quiet : c.sets_thread = false)
    (h : CollabStore.resolve_chat_turn c.session_id tid status event agent_message error st
      = (.ok (), st')) : ChatSteps c st st' :=
  touched_spec c tid (fun t => { t with
    status := status
    agent_message := agent_message.or t.agent_message
    error := error.or t.error }) quiet (fun _ => rfl) h

theorem ChatCall.run_spec {c : ChatCall} (h : c.run st = (.ok (), st')) : ChatSteps c st st' := by
  cases c with
  | start sid backend message tid => exact start_chat_turn_spec h
  | narrate sid tid text =>
      exact touched_spec (.narrate sid tid text) tid
        (fun t => { t with narration := t.narration ++ [text] }) rfl (fun _ => rfl) h
  | complete sid tid message =>
      exact resolved_spec (.complete sid tid message) rfl h
  | fail sid tid error => exact resolved_spec (.fail sid tid error) rfl h
  | interrupt sid tid => exact resolved_spec (.interrupt sid tid) rfl h
  | set_thread_id sid thread_id runner =>
      simp only [ChatCall.run, CollabStore.set_chat_thread_id, bind_eq_ok,
        CollabStore.get_eq_ok] at h
      obtain ⟨s, _, ⟨hs, rfl⟩, h⟩ := h
      exact ChatSteps.of_updated (f := fun chat => { chat with backend_thread_id := some thread_id })
        hs .threaded (CollabStore.assign_updated h)
  | end_chat sid =>
      simp only [ChatCall.run, CollabStore.end_chat, bind_eq_ok (x := CollabStore.get sid),
        CollabStore.get_eq_ok] at h
      obtain ⟨s, _, ⟨hs, rfl⟩, h⟩ := h
      exact ChatSteps.of_updated hs .ended (chat_updated _ h)

end Specs

/-- A call that raises leaves the store as it was. -/
theorem ChatCall.atomic (c : ChatCall) :
    Atomic (c.run : CollabStore.CollabM Sub Diag Unit) := by
  have htouch : ∀ {sid tid : String} {f : ChatTurn → ChatTurn} {event : CollabEvent}
      {check_error : ChatTurn → CollabError}, Atomic (do
        let session ← CollabStore.get sid
        let turn ← lift (CollabStore.get_chat_turn session tid)
        check (turn.status = .RUNNING) (check_error turn)
        CollabStore.assign_chat sid fun chat => { chat with turns := update_turn tid f chat.turns }
        CollabStore.publish sid event : CollabStore.CollabM Sub Diag Unit) := by
    intro sid tid f event check_error
    exact (CollabStore.get_reads sid).bind_atomic fun _ => (Reads.lift _).bind_atomic fun _ =>
      (Reads.check _ _).bind_atomic fun _ => (CollabStore.assign_publish_total _ _ _).atomic
  cases c with
  | start sid backend message tid =>
      exact (CollabStore.get_reads sid).bind_atomic fun _ => (Reads.lift _).bind_atomic fun _ =>
        (Reads.lift _).bind_atomic fun _ => (CollabStore.assign_publish_total _ _ _).atomic
  | narrate | complete | fail | interrupt => exact htouch
  | set_thread_id sid thread_id runner =>
      exact (CollabStore.get_reads sid).bind_atomic fun _ => (Total.write _).atomic
  | end_chat sid =>
      exact (CollabStore.get_reads sid).bind_atomic fun _ =>
        (CollabStore.assign_publish_total _ _ _).atomic

/-- A call leaves session `sid` alone, or is one of its own that returns
and steps its chat. -/
theorem chat_next {c : ChatCall} {st : CollabStore Sub Diag} {sid : String}
    {s : CollabSession Sub Diag} (hs : st.sessions.get? sid = some s) :
    ((c.after st).sessions.get? sid = some s ∧ ¬ (c.session_id = sid ∧ c.returns st = true)) ∨
      (c.session_id = sid ∧ c.returns st = true ∧ ∃ chat, ChatStep c s.collab.chat chat ∧
        (c.after st).sessions.get? sid =
          some { s with collab := { s.collab with chat := chat } }) := by
  rcases hrun : c.run st with ⟨_ | u, st'⟩
  · left
    refine ⟨?_, ?_⟩
    · rw [ChatCall.after, hrun, show st' = st from c.atomic st _ _ hrun]
      exact hs
    · simp [ChatCall.returns, hrun, Except.isOk, Except.toBool]
  · obtain ⟨s', chat, hs', hstep, hafter, hothers⟩ := ChatCall.run_spec hrun
    rw [show c.after st = st' from congrArg Prod.snd hrun]
    by_cases hsid : c.session_id = sid
    · right
      subst hsid
      rw [hs, Option.some.injEq] at hs'
      subst hs'
      exact ⟨rfl, by simp [ChatCall.returns, hrun, Except.isOk, Except.toBool], chat, hstep, hafter⟩
    · left
      exact ⟨by rw [hothers sid (Ne.symm hsid), hs], fun h => hsid h.1⟩

/-! ## The law of the chat -/

/-- A running turn is the last one, so there is at most one. -/
def ChatState.OneRunning (chat : ChatState) : Prop :=
  ∀ (k : Nat) turn, chat.turns[k]? = some turn → turn.status = .RUNNING → k + 1 = chat.turns.length

/-- Turns keep their place, and a resolved one stays as it is. -/
def ChatState.KeepsResolved (chat chat' : ChatState) : Prop :=
  ∀ (k : Nat) turn, chat.turns[k]? = some turn → turn.status ≠ .RUNNING →
    chat'.turns[k]? = some turn

/-- The chat of session `sid`. -/
def CollabStore.chat (st : CollabStore Sub Diag) (sid : String) : Option ChatState :=
  (st.sessions.get? sid).map (·.collab.chat)

/-- The call sets or clears the thread id of session `sid`. -/
def ChatCall.Threads (st : CollabStore Sub Diag) (sid : String) (c : ChatCall) : Prop :=
  c.session_id = sid ∧ c.sets_thread = true ∧ c.returns st = true

/-- In the run `calls` the thread id of session `sid` was last set to
`thread_id`, by the runner of turn `runner`. -/
def LastReport (st : CollabStore Sub Diag) (sid : String) (calls : List ChatCall)
    (thread_id : String) (runner : Nat) : Prop :=
  ∃ pre post, calls = pre ++ .set_thread_id sid thread_id runner :: post ∧
    (ChatCall.set_thread_id sid thread_id runner).returns (Runs.run ChatCall.after st pre) = true ∧
    ∀ pre' c post', post = pre' ++ c :: post' → ¬ c.Threads (Runs.run ChatCall.after st
      (pre ++ .set_thread_id sid thread_id runner :: pre')) sid

/-- The turn at this position is one of the active backend. -/
def ChatState.Serves (chat : ChatState) (runner : Nat) : Prop :=
  ∃ turn, chat.turns[runner]? = some turn ∧ chat.backend = some turn.backend

/-- A thread id, when there is one, was reported by a run of the active
backend. -/
def ThreadFaithful (st : CollabStore Sub Diag) (sid : String) (calls : List ChatCall) : Prop :=
  ∀ chat thread_id, (Runs.run ChatCall.after st calls).chat sid = some chat →
    chat.backend_thread_id = some thread_id →
      ∃ runner, LastReport st sid calls thread_id runner ∧ chat.Serves runner

/-- What the chat of session `sid` promises over a run of calls. -/
structure ChatLaw (st : CollabStore Sub Diag) (sid : String) (calls : List ChatCall) : Prop where
  one_running : ∀ pre post, calls = pre ++ post → ∀ chat,
    (Runs.run ChatCall.after st pre).chat sid = some chat → chat.OneRunning
  resolved_once : Runs.Between ChatCall.after (fun st st' => ∀ chat, st.chat sid = some chat →
    ∃ chat', st'.chat sid = some chat' ∧ chat.KeepsResolved chat') st calls
  thread : ∀ pre post, calls = pre ++ post → ThreadFaithful st sid pre

/-- Whoever reports a thread id serves a turn of the active backend. -/
def ChatCall.Current (sid : String) (st : CollabStore Sub Diag) (c : ChatCall) : Prop :=
  ∀ thread_id runner, c = .set_thread_id sid thread_id runner → ∀ chat, st.chat sid = some chat →
    chat.Serves runner

section Step

variable {c : ChatCall} {chat chat' : ChatState}

theorem ChatStep.oneRunning (h : ChatStep c chat chat') (hone : chat.OneRunning) :
    chat'.OneRunning := by
  cases h with
  | started same idle =>
      intro k turn hk hrunning
      simp only at hk ⊢
      rw [List.length_append, List.length_singleton]
      rcases Nat.lt_or_ge k chat.turns.length with hlt | hge
      · -- the turn before the new one is the last, and it is not running
        rw [List.getElem?_append_left hlt] at hk
        have hlast := hone k turn hk hrunning
        have : chat.turns.getLast? = some turn := by
          rw [List.getLast?_eq_getElem?, ← hlast, Nat.add_sub_cancel, hk]
        exact absurd hrunning (idle turn this)
      · have hlt := (List.getElem?_eq_some_iff.mp hk).1
        rw [List.length_append, List.length_singleton] at hlt
        omega
  | @touched _ _ j old new _ found running _ =>
      intro k turn hk hrunning
      simp only [List.getElem?_set, List.length_set] at hk ⊢
      split at hk
      · rename_i hj
        subst hj
        exact hone j old found running
      · exact hone k turn hk hrunning
  | threaded | ended => exact hone

theorem ChatStep.keepsResolved (h : ChatStep c chat chat') : chat.KeepsResolved chat' := by
  intro k turn hk hresolved
  cases h with
  | started same idle =>
      have hlt := (List.getElem?_eq_some_iff.mp hk).1
      simp only
      rw [List.getElem?_append_left hlt, hk]
  | @touched _ _ j old new _ found running _ =>
      simp only [List.getElem?_set]
      split
      · rename_i hj
        subst hj
        rw [found, Option.some.injEq] at hk
        exact absurd (hk ▸ running) hresolved
      · exact hk
  | threaded | ended => exact hk

/-- Between two reports the thread id stays, and whoever served the active
backend still does. -/
theorem ChatStep.quiet (h : ChatStep c chat chat') (hc : c.sets_thread = false) :
    chat'.backend_thread_id = chat.backend_thread_id ∧
      ∀ {runner}, chat.Serves runner → chat'.Serves runner := by
  cases h with
  | @started sid backend message tid _ same idle =>
      refine ⟨rfl, ?_⟩
      rintro runner ⟨turn, hturn, hbackend⟩
      have hlt := (List.getElem?_eq_some_iff.mp hturn).1
      refine ⟨turn, ?_, ?_⟩
      · simp only
        rw [List.getElem?_append_left hlt, hturn]
      · rw [same _ hbackend]
  | @touched _ _ j old new _ found running backend =>
      refine ⟨rfl, ?_⟩
      rintro runner ⟨turn, hturn, hbackend⟩
      by_cases hj : j = runner
      · subst hj
        rw [found, Option.some.injEq] at hturn
        subst hturn
        have hlt := (List.getElem?_eq_some_iff.mp found).1
        exact ⟨new, by simp [hlt], by rw [backend]; exact hbackend⟩
      · exact ⟨turn, by simp [hj, hturn], hbackend⟩
  | threaded | ended => cases hc

end Step

section Runs

variable {st : CollabStore Sub Diag} {sid : String} {calls : List ChatCall}

theorem chat_state_next {chat : ChatState} (h : st.chat sid = some chat) (c : ChatCall) :
    ∃ chat', (c.after st).chat sid = some chat' ∧
      ((chat' = chat ∧ ¬ c.Threads st sid) ∨
        (c.session_id = sid ∧ c.returns st = true ∧ ChatStep c chat chat')) := by
  obtain ⟨s, hs, rfl⟩ := Option.map_eq_some_iff.mp h
  rcases chat_next (c := c) hs with ⟨hsame, hnot⟩ | ⟨hsid, hret, chat', hstep, hafter⟩
  · exact ⟨s.collab.chat, by rw [CollabStore.chat, hsame, Option.map_some],
      .inl ⟨rfl, fun ht => hnot ⟨ht.1, ht.2.2⟩⟩⟩
  · exact ⟨chat', by rw [CollabStore.chat, hafter, Option.map_some], .inr ⟨hsid, hret, hstep⟩⟩

theorem set_thread_id_next {chat : ChatState} (h : st.chat sid = some chat) (thread_id : String)
    (runner : Nat) :
    (ChatCall.set_thread_id sid thread_id runner).returns st = true ∧
      ((ChatCall.set_thread_id sid thread_id runner).after st).chat sid =
        some { chat with backend_thread_id := some thread_id } := by
  obtain ⟨s, hs, rfl⟩ := Option.map_eq_some_iff.mp h
  obtain ⟨st', hassign⟩ : ∃ st', CollabStore.assign_chat sid
      (fun chat => { chat with backend_thread_id := some thread_id }) st = (.ok (), st') :=
    ⟨_, rfl⟩
  have hrun : (ChatCall.set_thread_id sid thread_id runner).run st = (.ok (), st') :=
    (bind_of_ok (CollabStore.get_eq_ok.mpr ⟨hs, rfl⟩)).trans hassign
  have hupdated := CollabStore.assign_updated hassign
  constructor
  · rw [ChatCall.returns, hrun]
    rfl
  · rw [ChatCall.after, hrun, CollabStore.chat, hupdated.here, hs]
    rfl

/-- Over a run the session keeps having a chat. -/
theorem chat_run {chat : ChatState} (h : st.chat sid = some chat) (calls : List ChatCall) :
    ∃ chat', (Runs.run ChatCall.after st calls).chat sid = some chat' :=
  Runs.invariant (P := fun (st : CollabStore Sub Diag) => ∃ chat, st.chat sid = some chat)
    ⟨chat, h⟩ (fun _ c ⟨_, hchat⟩ => (chat_state_next hchat c).imp fun _ h => h.1) calls

/-- A call that leaves the thread id alone leaves the last report. -/
theorem LastReport.more {thread_id : String} {runner : Nat} {c : ChatCall}
    (h : LastReport st sid calls thread_id runner)
    (hc : ¬ c.Threads (Runs.run ChatCall.after st calls) sid) :
    LastReport st sid (calls ++ [c]) thread_id runner := by
  obtain ⟨pre, post, rfl, hret, hquiet⟩ := h
  refine ⟨pre, post ++ [c], by simp, hret, ?_⟩
  intro pre' c' post' hsplit
  rcases Runs.concat_eq_split.mp hsplit with ⟨-, rfl, rfl⟩ | ⟨rest, -, hrest⟩
  · exact hc
  · exact hquiet pre' c' rest hrest

theorem LastReport.now {thread_id : String} {runner : Nat}
    (hret : (ChatCall.set_thread_id sid thread_id runner).returns
      (Runs.run ChatCall.after st calls) = true) :
    LastReport st sid (calls ++ [.set_thread_id sid thread_id runner]) thread_id runner :=
  ⟨calls, [], rfl, hret, fun pre c post h => by simp at h⟩

/-- Right after a report the last one is that report. -/
theorem LastReport.eq_now {thread_id thread_id' : String} {runner runner' : Nat}
    (hret : (ChatCall.set_thread_id sid thread_id runner).returns
      (Runs.run ChatCall.after st calls) = true)
    (h : LastReport st sid (calls ++ [.set_thread_id sid thread_id runner]) thread_id' runner') :
    runner' = runner := by
  obtain ⟨pre, post, hsplit, -, hquiet⟩ := h
  rcases Runs.concat_eq_split.mp hsplit with ⟨-, -, heq⟩ | ⟨rest, rfl, rfl⟩
  · cases heq
    rfl
  · exact absurd ⟨rfl, rfl, hret⟩ (hquiet rest _ [] rfl)

/-- In a run whose reports are all current the thread id is faithful. -/
theorem thread_faithful_run (hs : st.chat sid = some {})
    (h : Runs.AllSteps ChatCall.after (ChatCall.Current sid) st calls) :
    ThreadFaithful st sid calls := by
  induction calls using List.reverseRecOn with
  | nil =>
      intro chat thread_id hchat hthread
      rw [Runs.run_nil, hs, Option.some.injEq] at hchat
      subst hchat
      cases hthread
  | append_singleton calls c ih =>
      rw [Runs.AllSteps.concat_iff] at h
      obtain ⟨hcalls, hcurrent⟩ := h
      obtain ⟨chat, hchat⟩ := chat_run hs calls
      obtain ⟨chat', hchat', hstep⟩ := chat_state_next hchat c
      intro now thread_id hnow hthread
      rw [Runs.run_concat, hchat', Option.some.injEq] at hnow
      subst hnow
      -- a call that leaves the thread id alone keeps the report it came from
      have hkeep : chat'.backend_thread_id = chat.backend_thread_id →
          (∀ {runner}, chat.Serves runner → chat'.Serves runner) →
          ¬ c.Threads (Runs.run ChatCall.after st calls) sid →
          ∃ runner, LastReport st sid (calls ++ [c]) thread_id runner ∧ chat'.Serves runner := by
        intro hsame hserves hquiet
        obtain ⟨runner, hlast, hrunner⟩ := ih hcalls chat thread_id hchat (hsame ▸ hthread)
        exact ⟨runner, hlast.more hquiet, hserves hrunner⟩
      rcases hstep with ⟨rfl, hquiet⟩ | ⟨hsid, hret, hstep⟩
      · exact hkeep rfl id hquiet
      · cases hc : c.sets_thread with
        | false =>
            obtain ⟨hsame, hserves⟩ := hstep.quiet hc
            exact hkeep hsame hserves fun ht => absurd (hc ▸ ht.2.1) (by decide)
        | true =>
            cases hstep with
            | started => cases hc
            | touched quiet => exact absurd (quiet ▸ hc) (by decide)
            | @threaded _ reported runner _ =>
                cases hthread
                rw [ChatCall.session_id] at hsid
                subst hsid
                exact ⟨runner, .now hret, hcurrent thread_id runner rfl chat hchat⟩
            | ended => cases hthread

end Runs

/-- The chat of a session that starts new obeys its law exactly when every
thread id is reported by a run of the backend active at that moment. -/
theorem chat_law_iff {st : CollabStore Sub Diag} {sid : String} (hs : st.chat sid = some {})
    (calls : List ChatCall) :
    ChatLaw st sid calls ↔ Runs.AllSteps ChatCall.after (ChatCall.Current sid) st calls := by
  constructor
  · rintro h pre c post hsplit thread_id runner rfl chat hchat
    obtain ⟨hret, hafter⟩ := set_thread_id_next hchat thread_id runner
    obtain ⟨runner', hlast, hserves⟩ :=
      h.thread (pre ++ [.set_thread_id sid thread_id runner]) post (by rw [hsplit]; simp) _
        thread_id (by rw [Runs.run_concat]; exact hafter) rfl
    -- the report just made is the last one, so its runner is the one that serves
    rw [← hlast.eq_now hret]
    exact hserves
  · intro h
    refine ⟨?_, ?_, ?_⟩
    · intro pre post _
      have hone : ∃ chat, (Runs.run ChatCall.after st pre).chat sid = some chat ∧
          chat.OneRunning := by
        refine Runs.invariant (P := fun (st : CollabStore Sub Diag) =>
          ∃ chat, st.chat sid = some chat ∧ chat.OneRunning) ⟨{}, hs, ?_⟩ ?_ pre
        · intro k turn hk
          cases hk
        · rintro st c ⟨chat, hchat, hone⟩
          obtain ⟨chat', hchat', hstep⟩ := chat_state_next hchat c
          rcases hstep with ⟨rfl, -⟩ | ⟨-, -, hstep⟩
          · exact ⟨chat', hchat', hone⟩
          · exact ⟨chat', hchat', hstep.oneRunning hone⟩
      obtain ⟨chat, hchat, hone⟩ := hone
      intro chat' hchat'
      rw [hchat, Option.some.injEq] at hchat'
      exact hchat' ▸ hone
    · rw [Runs.between_iff]
      · rintro pre c post - chat hchat
        obtain ⟨chat', hchat', hstep⟩ := chat_state_next hchat c
        rcases hstep with ⟨rfl, -⟩ | ⟨-, -, hstep⟩
        · exact ⟨chat', hchat', fun k turn hk _ => hk⟩
        · exact ⟨chat', hchat', hstep.keepsResolved⟩
      · intro st chat hchat
        exact ⟨chat, hchat, fun k turn hk _ => hk⟩
      · intro st st' st'' h h' chat hchat
        obtain ⟨chat', hchat', hkept⟩ := h chat hchat
        obtain ⟨chat'', hchat'', hkept'⟩ := h' chat' hchat'
        exact ⟨chat'', hchat'', fun k turn hk hresolved =>
          hkept' k turn (hkept k turn hk hresolved) hresolved⟩
    · rintro pre post rfl
      apply thread_faithful_run hs
      rintro pre' c post' rfl
      exact h pre' c (post' ++ post) (by simp)

/-! ## Examples -/

def new_chat : CollabStore Empty Unit :=
  { sessions := Dict.empty.set "s" { id := "s" } }

/-- The chat with one backend is interrupted and ended while its runner is
still streaming, which then reports its thread id; another backend starts. -/
def late_report : List ChatCall :=
  [.start "s" "claude" "hello" "t1", .interrupt "s" "t1", .end_chat "s",
    .set_thread_id "s" "claude-thread" 0, .start "s" "codex" "hi" "t2"]

/-- The new backend would resume the thread of the old one. -/
theorem late_report_breaks_law : ¬ ChatLaw new_chat "s" late_report := by
  intro h
  obtain ⟨runner, ⟨pre, post, hsplit, -, -⟩, turn, hturn, hbackend⟩ :=
    h.thread late_report [] rfl _ "claude-thread" rfl rfl
  have hrunner : runner = 0 := by
    have hmem : ChatCall.set_thread_id "s" "claude-thread" runner ∈ late_report := by
      rw [hsplit]
      exact List.mem_append_right _ List.mem_cons_self
    simpa [late_report] using hmem
  subst hrunner
  cases hturn
  exact absurd hbackend (by decide)

/-- The runner of the first turn reports while its backend is active. -/
def timely_report : List ChatCall :=
  [.start "s" "claude" "hello" "t1", .set_thread_id "s" "claude-thread" 0,
    .complete "s" "t1" "done"]

theorem timely_report_law : ChatLaw new_chat "s" timely_report := by
  have hnew : (new_chat.chat "s") = some {} := rfl
  apply (chat_law_iff hnew timely_report).mpr
  rintro pre c post hsplit thread_id runner rfl chat hchat
  rcases pre with _ | ⟨c₁, _ | ⟨c₂, _ | ⟨c₃, pre⟩⟩⟩
  · cases hsplit
  · cases hsplit
    cases hchat
    exact ⟨_, rfl, rfl⟩
  · cases hsplit
  · simp [timely_report] at hsplit

end EmergentFlow
