import EmergentFlow.Ui.SessionSync

/-!
# Ui — Convergence

When the canvas has caught up with its session: every frame of the stream
is delivered, no refresh is under way and none is queued, and the store
then shows the session (`ui/src/session/sessionStore.ts`). The invariant is
that whatever the store does not show yet, a refresh is still to come for.
`Careful` says of one step that it does not break it behind the canvas's
back; `session_converges` proves the rest over every run of careful steps.
-/

namespace EmergentFlow.Sync

variable {Sub Diag : Type} {place : Bool → Graph Sub → Graph Sub}

/-! ## What the store shows -/

/-- The session without the thread id of its chat backend, which the server
sets without an event. -/
def Session.unthreaded (s : Session Sub Diag) : Session Sub Diag :=
  s.set_chat { s.collab.chat with backend_thread_id := none }

/-- The store holds what the session does; its chat ends with `turn`. -/
structure Store.Shows (st : Store Sub Diag) (s : Session Sub Diag) (turn : Option ChatTurn) :
    Prop where
  version : st.version = some s.version
  proposals : st.proposals = s.proposals
  reviews : st.reviews = s.collab.reviews
  gates : st.gates = s.collab.gates
  attempts : st.attempts = s.attempts
  checkpoints : st.checkpoints = s.checkpoints
  tours : st.tours = s.tours
  backend : st.chat.backend = s.collab.chat.backend
  persona : st.chat.active_persona = s.collab.chat.active_persona
  turns : st.chat.turns = s.collab.chat.turns ++ turn.toList

/-- The canvas holds this graph, unless it was edited since it was loaded. -/
def System.Holds (place : Bool → Graph Sub → Graph Sub) (sys : System Sub Diag)
    (graph : Graph Sub) : Prop :=
  sys.edited = false → ∃ reflow, sys.canvas = place reflow graph

/-! ## What is still to come -/

/-- A refresh will start: for a frame of the stream, or the queued event. -/
def System.Late (sys : System Sub Diag) (sub : Subscription) : Prop :=
  (∃ e, Frame.event e ∈ sub.queue ∧ e.type ≠ .run_completed) ∨ sys.queuedEvent.isSome = true

/-- The refresh under way will bring this session. -/
def System.Refreshing (sys : System Sub Diag) (s : Session Sub Diag) : Prop :=
  ∃ r, sys.inFlightRefresh = some r ∧ r.session_id = s.id ∧
    ∀ v, r.response = some (.ok v) → v.unthreaded = s.unthreaded

/-- A refresh will start that loads the graph. -/
def System.GraphLate (sys : System Sub Diag) (sub : Subscription) : Prop :=
  (∃ e, Frame.event e ∈ sub.queue ∧ isGraphEvent e.type = true) ∨
    ∃ e, sys.queuedEvent = some e ∧ isGraphEvent e.type = true

/-- The refresh under way will load the graph of this session. -/
def System.GraphRefreshing (sys : System Sub Diag) (s : Session Sub Diag) : Prop :=
  ∃ r, sys.inFlightRefresh = some r ∧ r.session_id = s.id ∧ isGraphEvent r.event.type = true ∧
    ∀ v, r.response = some (.ok v) → v.graph = s.graph

/-- The store shows the session and no refresh will change that, or a
refresh is to come. -/
def System.Synced (sys : System Sub Diag) (sub : Subscription) (s : Session Sub Diag) : Prop :=
  sys.Late sub ∨ sys.Refreshing s ∨
    ((∀ r, sys.inFlightRefresh = some r → r.session_id ≠ s.id) ∧
      sys.store.Shows s sys.agentTurn)

/-- The same for the graph of the canvas. -/
def System.GraphSynced (place : Bool → Graph Sub → Graph Sub) (sys : System Sub Diag)
    (sub : Subscription) (s : Session Sub Diag) : Prop :=
  sys.GraphLate sub ∨ sys.GraphRefreshing s ∨
    ((∀ r, sys.inFlightRefresh = some r → r.session_id = s.id →
      isGraphEvent r.event.type = false) ∧ sys.Holds place s.graph)

/-! ## The condition -/

/-- The response leaves a store that shows the session as it is. -/
def System.Current (sys : System Sub Diag) (s : Session Sub Diag) :
    Request → Response Sub Diag → Prop
  | _, .session v => v.unthreaded = s.unthreaded
  | _, .proposal p => s.proposals.get? p.id = some p
  | .postReviewComment reviewId, .review thread => s.collab.reviews.get? reviewId = some thread
  | _, .review thread => s.collab.reviews.get? thread.id = some thread
  | .closeGate gateId, .gate gate | .skipGate gateId, .gate gate
  | .addGateDecision gateId, .gate gate => s.collab.gates.get? gateId = some gate
  | _, .gate gate => s.collab.gates.get? gate.id = some gate
  -- the turn would be appended a second time
  | .startChat _, .turn _ => False
  | _, .turn turn => ∀ t ∈ sys.store.chat.turns, t.id = turn.id → t = turn
  | _, .checkpoints checkpoints => Dict.ofList (checkpoints.map fun c => (c.id, c)) = s.checkpoints
  | _, .result | _, .error _ => True

/-- The handlers that load a graph. -/
def Request.loads : Request → Bool
  | .createAndJoin | .join _ | .accept | .applyDirectMutation | .revertCheckpoint => true
  | _ => false

/-- The requests that change the session of the store. -/
def Request.joins : Request → Bool
  | .createAndJoin | .join _ => true
  | _ => false

/-- The response of an action is about the session of the store, and is
current or will be read again. -/
def System.CarefulResponse (sys : System Sub Diag) (f : Flight Sub Diag)
    (response : Response Sub Diag) : Prop :=
  sys.store.sessionId = f.session_id ∧
    ∀ sub s, sys.activeSubscription = some sub → sub.live = true →
      sys.sessions.get? sub.session_id = some s →
        sys.Current s f.request response ∨ ((sys.Late sub ∨ sys.Refreshing s) ∧
          (f.request.loads = true → sys.GraphLate sub ∨ sys.GraphRefreshing s))

/-- The step does not change what the store should show without the canvas
being told, or set the store to something else. -/
def Careful (place : Bool → Graph Sub → Graph Sub) (sys : System Sub Diag) :
    Action Sub Diag → Prop
  -- its event is outside the schema: a refresh has to come anyway
  | .write id (.record_attempt _ _) =>
      ∀ sub, sys.activeSubscription = some sub → sub.live = true → sub.session_id = id →
        sys.Late sub ∨
          ∃ r, sys.inFlightRefresh = some r ∧ r.session_id = id ∧ r.response = none
  | .receive i => ∀ f response, sys.flights[i]? = some f → f.response = some response →
      match f.request.joins, response with
      | true, .session s => ∀ e, sys.queuedEvent = some e → e.session_id = s.id
      | _, .result | _, .error _ => True
      | _, _ => sys.CarefulResponse f response
  -- a refresh that failed is not made again
  | .refreshed _ => ∀ r message sub s, sys.inFlightRefresh = some r →
      r.response = some (.error message) → sys.activeSubscription = some sub → sub.live = true →
        sys.sessions.get? sub.session_id = some s →
          (sys.Late sub ∨ sys.store.Shows s sys.agentTurn) ∧
            (sys.GraphLate sub ∨ sys.Holds place s.graph)
  -- the snapshot is still that of the session
  | .register => ∀ sub s, sys.activeSubscription = some sub →
      sys.sessions.get? sub.session_id = some s → sys.Synced sub s ∧ sys.GraphSynced place sub s
  | _ => True

/-- Every step of the run is careful. -/
def CarefulRun (place : Bool → Graph Sub → Graph Sub) :
    System Sub Diag → List (Action Sub Diag) → Prop
  | _, [] => True
  | sys, a :: actions =>
      Careful place sys a ∧ ∀ sys', sys.step place a = some sys' → CarefulRun place sys' actions

/-! ## The property -/

/-- All frames of the stream are delivered and no refresh is under way or
queued. -/
structure System.Quiet (sys : System Sub Diag) (sub : Subscription) : Prop where
  subscribed : sys.activeSubscription = some sub
  live : sub.live = true
  delivered : sub.queue = []
  idle : sys.inFlightRefresh = none
  unqueued : sys.queuedEvent = none

/-- What the canvas promises of the session it follows. -/
structure Converges (place : Bool → Graph Sub → Graph Sub) (sys : System Sub Diag) : Prop where
  quiet : ∀ sub s, sys.Quiet sub → sys.sessions.get? sub.session_id = some s →
    sys.store.sessionId = some s.id ∧ sys.store.Shows s sys.agentTurn ∧ sys.Holds place s.graph
  /-- Coalescing loses no event that changes the graph. -/
  coalesced : ∀ sub s, sys.activeSubscription = some sub → sub.live = true →
    sys.sessions.get? sub.session_id = some s → ¬ sys.Holds place s.graph →
      sys.GraphLate sub ∨ sys.GraphRefreshing s
  /-- The stream, and so every event, is of the session of the store. -/
  followed : ∀ sub, sys.activeSubscription = some sub →
    sys.store.sessionId = some sub.session_id ∧
      ∀ e, Frame.event e ∈ sub.queue → e.session_id = sub.session_id
  queued : ∀ e, sys.queuedEvent = some e → sys.store.sessionId = some e.session_id
  /-- The refresh of a session that was left changes nothing. -/
  left : ∀ r, sys.inFlightRefresh = some r → sys.store.sessionId ≠ some r.session_id →
    ∀ now sys', sys.step place (.refreshed now) = some sys' →
      sys'.store = sys.store ∧ sys'.canvas = sys.canvas

/-! ## The invariant -/

/-- The invariant of the system. -/
structure System.Inv (place : Bool → Graph Sub → Graph Sub) (sys : System Sub Diag) : Prop where
  ids : ∀ {k s}, sys.sessions.get? k = some s → s.id = k
  stream : ∀ {sub}, sys.activeSubscription = some sub → sys.store.sessionId = some sub.session_id
  queue : ∀ {sub e}, sys.activeSubscription = some sub → Frame.event e ∈ sub.queue →
    e.session_id = sub.session_id
  queued : ∀ {e}, sys.queuedEvent = some e →
    sys.store.sessionId = some e.session_id ∧ e.type ≠ .run_completed
  answered : ∀ {f v id}, f ∈ sys.flights → f.response = some (.session v) →
    f.session_id = some id → v.id = id
  synced : ∀ {sub s}, sys.activeSubscription = some sub → sub.live = true →
    sys.sessions.get? sub.session_id = some s → sys.Synced sub s
  graph : ∀ {sub s}, sys.activeSubscription = some sub → sub.live = true →
    sys.sessions.get? sub.session_id = some s → sys.GraphSynced place sub s

theorem System.Inv.session_id {sys : System Sub Diag} (h : sys.Inv place) {sub : Subscription}
    {s : Session Sub Diag} (hsub : sys.activeSubscription = some sub)
    (hs : sys.sessions.get? sub.session_id = some s) : sys.store.sessionId = some s.id := by
  rw [h.ids hs, h.stream hsub]

/-- The refresh of another session leaves the store and the canvas. -/
theorem refreshFromServer_left {sys : System Sub Diag} {id now : String} {e : Event}
    {response : Except String (Session Sub Diag)} (h : sys.store.sessionId ≠ some id) :
    sys.refreshFromServer place id e now response = sys := by
  cases response with
  | ok s => exact if_pos h
  | error message => exact if_pos h

/-- What an event does: nothing, when it is of another session or a run that
completed; otherwise it starts a refresh or waits for the one in flight. -/
theorem handleSessionEvent_cases (sys : System Sub Diag) (e : Event) :
    (sys.handleSessionEvent e = sys ∧
      (sys.store.sessionId ≠ some e.session_id ∨ e.type = .run_completed)) ∨
    (sys.handleSessionEvent e = sys ∧ isGraphEvent e.type = false ∧
      ∃ queued, sys.queuedEvent = some queued ∧ isGraphEvent queued.type = true) ∨
    (sys.store.sessionId = some e.session_id ∧ e.type ≠ .run_completed ∧
      sys.inFlightRefresh.isSome = true ∧
      (∀ queued, sys.queuedEvent = some queued → isGraphEvent queued.type = true →
        isGraphEvent e.type = true) ∧
      sys.handleSessionEvent e = { sys with queuedEvent := some e }) ∨
    (sys.store.sessionId = some e.session_id ∧ e.type ≠ .run_completed ∧
      sys.inFlightRefresh = none ∧ sys.handleSessionEvent e =
        { sys with inFlightRefresh := some { session_id := e.session_id, event := e } }) := by
  unfold System.handleSessionEvent
  by_cases hid : sys.store.sessionId = some e.session_id
  · rw [if_neg (not_not_intro hid)]
    by_cases htype : e.type = .run_completed
    · rw [if_pos htype]
      exact .inl ⟨rfl, .inr htype⟩
    · rw [if_neg htype]
      cases hr : sys.inFlightRefresh with
      | none => exact .inr (.inr (.inr ⟨hid, htype, rfl, rfl⟩))
      | some r =>
          simp only
          split
          next hkeep =>
            rw [Bool.and_eq_true, Option.any_eq_true, Bool.not_eq_true'] at hkeep
            obtain ⟨⟨queued, hq, hgraph⟩, he⟩ := hkeep
            exact .inr (.inl ⟨rfl, he, queued, hq, hgraph⟩)
          next hqueue =>
            refine .inr (.inr (.inl ⟨hid, htype, rfl, ?_, rfl⟩))
            intro queued hq hgraph
            -- a queued graph event gives way only to another one
            by_contra hne
            exact hqueue (by simp [hq, hgraph, hne])
  · rw [if_pos hid]
    exact .inl ⟨rfl, .inl hid⟩

theorem handleSessionEvent_store (sys : System Sub Diag) (e : Event) :
    (sys.handleSessionEvent e).store = sys.store ∧ (sys.handleSessionEvent e).canvas = sys.canvas := by
  rcases handleSessionEvent_cases sys e with ⟨h, -⟩ | ⟨h, -⟩ | ⟨-, -, -, -, h⟩ | ⟨-, -, -, h⟩ <;>
    rw [h] <;> exact ⟨rfl, rfl⟩

theorem next_refresh_none {sys : System Sub Diag} (h : sys.queuedEvent = none) :
    sys.next_refresh = { sys with inFlightRefresh := none, queuedEvent := none } := by
  rw [System.next_refresh, h]

/-- The queued event starts the next refresh. -/
theorem next_refresh_some {sys : System Sub Diag} {e : Event} (h : sys.queuedEvent = some e)
    (hid : sys.store.sessionId = some e.session_id) (htype : e.type ≠ .run_completed) :
    sys.next_refresh = { sys with
      inFlightRefresh := some { session_id := e.session_id, event := e }, queuedEvent := none } := by
  rw [System.next_refresh, h]
  simp [System.handleSessionEvent, hid, htype]

theorem next_refresh_store (sys : System Sub Diag) :
    sys.next_refresh.store = sys.store ∧ sys.next_refresh.canvas = sys.canvas := by
  cases h : sys.queuedEvent with
  | none =>
      rw [next_refresh_none h]
      exact ⟨rfl, rfl⟩
  | some e =>
      rw [System.next_refresh, h]
      exact handleSessionEvent_store _ _

/-- The invariant gives the property. -/
theorem System.Inv.converges {sys : System Sub Diag} (h : sys.Inv place) :
    Converges place sys where
  quiet := by
    intro sub s hquiet hs
    refine ⟨h.session_id hquiet.subscribed hs, ?_, ?_⟩
    · rcases h.synced hquiet.subscribed hquiet.live hs with (⟨e, he, -⟩ | hq) | ⟨r, hr, -⟩ | ⟨-, hshows⟩
      · simp [hquiet.delivered] at he
      · simp [hquiet.unqueued] at hq
      · simp [hquiet.idle] at hr
      · exact hshows
    · rcases h.graph hquiet.subscribed hquiet.live hs with
        (⟨e, he, -⟩ | ⟨e, he, -⟩) | ⟨r, hr, -⟩ | ⟨-, hholds⟩
      · simp [hquiet.delivered] at he
      · simp [hquiet.unqueued] at he
      · simp [hquiet.idle] at hr
      · exact hholds
  coalesced := by
    intro sub s hsub hlive hs hnot
    rcases h.graph hsub hlive hs with hlate | hrefreshing | ⟨-, hholds⟩
    · exact .inl hlate
    · exact .inr hrefreshing
    · exact absurd hholds hnot
  followed := fun sub hsub => ⟨h.stream hsub, fun e he => h.queue hsub he⟩
  queued := fun e he => (h.queued he).1
  left := by
    intro r hr hleft now sys' hstep
    simp only [System.step, hr, Option.bind_some] at hstep
    obtain ⟨response, -, rfl⟩ := Option.map_eq_some_iff.mp hstep
    rw [refreshFromServer_left hleft]
    exact next_refresh_store sys

/-! ## What the store shows, across writes -/

/-- What is shown does not depend on the thread id. -/
theorem Store.Shows.congr {st : Store Sub Diag} {s s' : Session Sub Diag} {turn : Option ChatTurn}
    (h : st.Shows s turn) (heq : s.unthreaded = s'.unthreaded) : st.Shows s' turn where
  version := h.version.trans (congrArg (fun s => some s.version) heq)
  proposals := h.proposals.trans (congrArg (fun s => s.proposals) heq)
  reviews := h.reviews.trans (congrArg (fun s => s.collab.reviews) heq)
  gates := h.gates.trans (congrArg (fun s => s.collab.gates) heq)
  attempts := h.attempts.trans (congrArg (fun s => s.attempts) heq)
  checkpoints := h.checkpoints.trans (congrArg (fun s => s.checkpoints) heq)
  tours := h.tours.trans (congrArg (fun s => s.tours) heq)
  backend := h.backend.trans (congrArg (fun s => s.collab.chat.backend) heq)
  persona := h.persona.trans (congrArg (fun s => s.collab.chat.active_persona) heq)
  turns := h.turns.trans (congrArg (fun s => s.collab.chat.turns ++ turn.toList) heq)

theorem graph_of_unthreaded {s s' : Session Sub Diag} (h : s.unthreaded = s'.unthreaded) :
    s.graph = s'.graph := congrArg (fun s => s.graph) h

theorem applySession_shows (s : Session Sub Diag) : (applySession s).Shows s none where
  version := rfl
  proposals := rfl
  reviews := rfl
  gates := rfl
  attempts := rfl
  checkpoints := rfl
  tours := rfl
  backend := rfl
  persona := rfl
  turns := (List.append_nil _).symm

theorem Write.apply_id (s : Session Sub Diag) (w : Write Sub Diag) : (w.apply s).id = s.id := by
  cases w <;> rfl

/-- A write is published by an event that starts a refresh, which loads the
graph if the write changed it; or it changes nothing that is shown; or it
is an attempt, whose frame is dropped. -/
theorem Write.cases (s : Session Sub Diag) (id : String) (w : Write Sub Diag) :
    (∃ e, w.frame id = some (.event e) ∧ e.session_id = id ∧ e.type ≠ .run_completed ∧
      (isGraphEvent e.type = true ∨ (w.apply s).graph = s.graph)) ∨
    ((∀ e, w.frame id = some (.event e) → e.session_id = id) ∧
      (w.apply s).unthreaded = s.unthreaded) ∨
    (∃ attempts attempt_id, w = .record_attempt attempts attempt_id) := by
  cases w with
  | set_chat_thread_id thread_id => exact .inr (.inl ⟨nofun, rfl⟩)
  | record_run =>
      refine .inr (.inl ⟨fun e he => ?_, rfl⟩)
      cases he
      rfl
  | record_attempt attempts attempt_id => exact .inr (.inr ⟨attempts, attempt_id, rfl⟩)
  | write_tour existed tours =>
      refine .inl ⟨_, rfl, rfl, ?_, .inr rfl⟩
      cases existed <;> simp
  | replace_graph | accept_proposal | apply_direct_mutation | revert_checkpoint =>
      exact .inl ⟨_, rfl, rfl, nofun, .inl rfl⟩
  | _ => exact .inl ⟨_, rfl, rfl, nofun, .inr rfl⟩

/-! ## The steps keep the invariant -/

section Steps

variable {sys : System Sub Diag}

/-- A session whose graph did not change is still as synced as it was. -/
theorem System.GraphSynced.of_graph {sub sub' : Subscription} {s s' : Session Sub Diag}
    (h : sys.GraphSynced place sub s) (hid : s'.id = s.id) (hgraph : s'.graph = s.graph)
    (hqueue : ∀ e, Frame.event e ∈ sub.queue → Frame.event e ∈ sub'.queue) :
    sys.GraphSynced place sub' s' := by
  rcases h with (⟨e, he, htype⟩ | hq) | ⟨r, hr, hsid, htype, hv⟩ | ⟨hr, hholds⟩
  · exact .inl (.inl ⟨e, hqueue e he, htype⟩)
  · exact .inl (.inr hq)
  · exact .inr (.inl ⟨r, hr, hsid.trans hid.symm, htype, fun v h => (hv v h).trans hgraph.symm⟩)
  · exact .inr (.inr ⟨fun r h hsid => hr r h (hsid.trans hid), hgraph ▸ hholds⟩)

theorem System.Synced.of_unthreaded {sub sub' : Subscription} {s s' : Session Sub Diag}
    (h : sys.Synced sub s) (hid : s'.id = s.id) (heq : s'.unthreaded = s.unthreaded)
    (hqueue : ∀ e, Frame.event e ∈ sub.queue → Frame.event e ∈ sub'.queue) :
    sys.Synced sub' s' := by
  rcases h with (⟨e, he, htype⟩ | hq) | ⟨r, hr, hsid, hv⟩ | ⟨hr, hshows⟩
  · exact .inl (.inl ⟨e, hqueue e he, htype⟩)
  · exact .inl (.inr hq)
  · exact .inr (.inl ⟨r, hr, hsid.trans hid.symm, fun v h => (hv v h).trans heq.symm⟩)
  · exact .inr (.inr ⟨fun r h => hid ▸ hr r h, hshows.congr heq.symm⟩)

/-- A frame goes to the stream of its session, once that is registered. -/
theorem publish_cases (sys : System Sub Diag) (id : String) (frame : Option Frame) :
    (sys.publish id frame = sys ∧
      ∀ sub, sys.activeSubscription = some sub → sub.live = true → sub.session_id ≠ id) ∨
    (∃ sub, sys.activeSubscription = some sub ∧ sub.session_id = id ∧ sub.live = true ∧
      sys.publish id frame = { sys with
        activeSubscription := some { sub with queue := sub.queue ++ frame.toList } }) := by
  unfold System.publish
  cases hsub : sys.activeSubscription with
  | none => exact .inl ⟨rfl, nofun⟩
  | some sub =>
      by_cases hours : sub.session_id = id ∧ sub.live = true
      · exact .inr ⟨sub, rfl, hours.1, hours.2, if_pos hours⟩
      · refine .inl ⟨if_neg hours, fun sub' hsub' hlive hid => ?_⟩
        cases hsub'
        exact hours ⟨hid, hlive⟩

theorem System.Inv.write (h : sys.Inv place) {id : String} {w : Write Sub Diag}
    {s₀ : Session Sub Diag} (hs₀ : sys.sessions.get? id = some s₀)
    (hcareful : Careful place sys (.write id w)) :
    ({ sys with sessions := sys.sessions.set id (w.apply s₀) }.publish id (w.frame id)).Inv place := by
  have hids : ∀ {k s}, (sys.sessions.set id (w.apply s₀)).get? k = some s → s.id = k := by
    intro k s hk
    rw [Dict.get?_set] at hk
    split at hk
    next heq =>
      cases hk
      rw [Write.apply_id, h.ids hs₀, heq]
    next => exact h.ids hk
  rcases publish_cases { sys with sessions := sys.sessions.set id (w.apply s₀) } id (w.frame id) with
    ⟨heq, hother⟩ | ⟨sub, hsub, rfl, hlive, heq⟩
  · rw [heq]
    have hget : ∀ {sub s}, sys.activeSubscription = some sub → sub.live = true →
        (sys.sessions.set id (w.apply s₀)).get? sub.session_id = some s →
          sys.sessions.get? sub.session_id = some s := by
      intro sub s hsub hlive hs
      rwa [Dict.get?_set_ne _ _ (hother sub hsub hlive).symm] at hs
    refine ⟨hids, h.stream, h.queue, h.queued, h.answered, ?_, ?_⟩
    · exact fun hsub hlive hs => h.synced hsub hlive (hget hsub hlive hs)
    · exact fun hsub hlive hs => h.graph hsub hlive (hget hsub hlive hs)
  · rw [heq]
    replace hsub : sys.activeSubscription = some sub := hsub
    have hold := h.synced hsub hlive hs₀
    have hgold := h.graph hsub hlive hs₀
    have hget : (sys.sessions.set sub.session_id (w.apply s₀)).get? sub.session_id =
        some (w.apply s₀) := Dict.get?_set_self _ _ _
    have hmem : ∀ e, Frame.event e ∈ sub.queue →
        Frame.event e ∈ sub.queue ++ (w.frame sub.session_id).toList :=
      fun e he => List.mem_append_left _ he
    -- the event of the write, if there is one, is of this session
    have hqueue : ∀ e, Frame.event e ∈ sub.queue ++ (w.frame sub.session_id).toList →
        e.session_id = sub.session_id := by
      intro e he
      rcases List.mem_append.mp he with he | he
      · exact h.queue hsub he
      · rw [Option.mem_toList] at he
        rcases Write.cases s₀ sub.session_id w with ⟨e', he', hid, -⟩ | ⟨hid, -⟩ | ⟨_, _, rfl⟩
        · rw [he'] at he
          cases he
          exact hid
        · exact hid e he
        · cases he
    have hstream := h.stream hsub
    refine ⟨hids, ?_, ?_, h.queued, h.answered, ?_, ?_⟩
    · intro sub' hsub'
      cases hsub'
      exact hstream
    · intro sub' e hsub'
      cases hsub'
      exact hqueue e
    · intro sub' s hsub' hlive' hs
      cases hsub'
      cases hget.symm.trans hs
      rcases Write.cases s₀ sub.session_id w with ⟨e, he, -, htype, -⟩ | ⟨-, heq⟩ | ⟨_, _, rfl⟩
      · refine .inl (.inl ⟨e, List.mem_append_right _ ?_, htype⟩)
        rw [he]
        exact List.mem_singleton_self _
      · exact hold.of_unthreaded (Write.apply_id s₀ w) heq hmem
      · rcases hcareful sub hsub hlive rfl with (⟨e, he, htype⟩ | hq) | ⟨r, hr, hid, hnone⟩
        · exact .inl (.inl ⟨e, hmem e he, htype⟩)
        · exact .inl (.inr hq)
        · refine .inr (.inl ⟨r, hr, hid.trans (h.ids hs₀).symm, fun v hv => ?_⟩)
          cases hnone.symm.trans hv
    · intro sub' s hsub' hlive' hs
      cases hsub'
      cases hget.symm.trans hs
      rcases Write.cases s₀ sub.session_id w with
        ⟨e, he, -, -, htype | hgraph⟩ | ⟨-, heq⟩ | ⟨_, _, rfl⟩
      · refine .inl (.inl ⟨e, List.mem_append_right _ ?_, htype⟩)
        rw [he]
        exact List.mem_singleton_self _
      · exact hgold.of_graph (Write.apply_id s₀ w) hgraph hmem
      · exact hgold.of_graph (Write.apply_id s₀ w) (graph_of_unthreaded heq) hmem
      · exact hgold.of_graph (Write.apply_id s₀ _) rfl hmem

/-- A new session is not the one that is followed. -/
theorem System.Inv.create (h : sys.Inv place) {id : String} (graph : Graph Sub)
    (hnew : sys.activeSubscription.any (·.session_id = id) = false) :
    { sys with sessions := sys.sessions.set id { id, graph } }.Inv place := by
  have hget : ∀ {sub s}, sys.activeSubscription = some sub →
      (sys.sessions.set id { id, graph }).get? sub.session_id = some s →
        sys.sessions.get? sub.session_id = some s := by
    intro sub s hsub hs
    have hne : id ≠ sub.session_id := by
      rintro rfl
      simp [hsub] at hnew
    rwa [Dict.get?_set_ne _ _ hne] at hs
  refine ⟨?_, h.stream, h.queue, h.queued, h.answered, ?_, ?_⟩
  · intro k s hk
    rw [Dict.get?_set] at hk
    split at hk
    next heq =>
      cases hk
      exact heq
    next => exact h.ids hk
  · exact fun hsub hlive hs => h.synced hsub hlive (hget hsub hs)
  · exact fun hsub hlive hs => h.graph hsub hlive (hget hsub hs)

theorem System.Inv.delete (h : sys.Inv place) (id : String) :
    { sys with sessions := sys.sessions.erase id }.Inv place := by
  have hget : ∀ {k s}, (sys.sessions.erase id).get? k = some s → sys.sessions.get? k = some s := by
    intro k s hk
    rw [Dict.get?_erase] at hk
    split at hk
    next => cases hk
    next => exact hk
  exact ⟨fun hk => h.ids (hget hk), h.stream, h.queue, h.queued, h.answered,
    fun hsub hlive hs => h.synced hsub hlive (hget hs),
    fun hsub hlive hs => h.graph hsub hlive (hget hs)⟩

theorem System.Inv.leave (h : sys.Inv place) : sys.leave.Inv place :=
  ⟨h.ids, nofun, nofun, nofun, h.answered, nofun, nofun⟩

/-- A step that keeps the stream, the refresh and the queued event need only
keep what is shown, unless it will be read again. -/
theorem System.Inv.frame (h : sys.Inv place) {sys' : System Sub Diag}
    (hsessions : sys'.sessions = sys.sessions)
    (hstream : sys'.activeSubscription = sys.activeSubscription)
    (hrefresh : sys'.inFlightRefresh = sys.inFlightRefresh)
    (hqueued : sys'.queuedEvent = sys.queuedEvent)
    (hid : ∀ id, sys.store.sessionId = some id → sys'.store.sessionId = some id)
    (hanswered : ∀ f v id, f ∈ sys'.flights → f.response = some (.session v) →
      f.session_id = some id → v.id = id)
    (hshows : ∀ sub s, sys.activeSubscription = some sub → sub.live = true →
      sys.sessions.get? sub.session_id = some s → sys.store.Shows s sys.agentTurn →
        (sys.Late sub ∨ sys.Refreshing s) ∨ sys'.store.Shows s sys'.agentTurn)
    (hholds : ∀ sub s, sys.activeSubscription = some sub → sub.live = true →
      sys.sessions.get? sub.session_id = some s → sys.Holds place s.graph →
        (sys.GraphLate sub ∨ sys.GraphRefreshing s) ∨ sys'.Holds place s.graph) :
    sys'.Inv place where
  ids := by
    rw [hsessions]
    exact h.ids
  stream := by
    intro sub hsub
    exact hid _ (h.stream (hstream ▸ hsub))
  queue := by
    rw [hstream]
    exact h.queue
  queued := by
    intro e he
    obtain ⟨hsid, htype⟩ := h.queued (hqueued ▸ he)
    exact ⟨hid _ hsid, htype⟩
  answered := fun hf hv hsid => hanswered _ _ _ hf hv hsid
  synced := by
    intro sub s hsub hlive hs
    rw [hstream] at hsub
    rw [hsessions] at hs
    unfold System.Synced System.Late System.Refreshing
    rw [hqueued, hrefresh]
    -- what is late or refreshing stays so; what is shown is up to the step
    rcases h.synced hsub hlive hs with hlate | hrefreshing | ⟨hr, hold⟩
    · exact .inl hlate
    · exact .inr (.inl hrefreshing)
    · rcases hshows sub s hsub hlive hs hold with (hlate | hrefreshing) | hnew
      · exact .inl hlate
      · exact .inr (.inl hrefreshing)
      · exact .inr (.inr ⟨hr, hnew⟩)
  graph := by
    intro sub s hsub hlive hs
    rw [hstream] at hsub
    rw [hsessions] at hs
    unfold System.GraphSynced System.GraphLate System.GraphRefreshing
    rw [hqueued, hrefresh]
    rcases h.graph hsub hlive hs with hlate | hrefreshing | ⟨hr, hold⟩
    · exact .inl hlate
    · exact .inr (.inl hrefreshing)
    · rcases hholds sub s hsub hlive hs hold with (hlate | hrefreshing) | hnew
      · exact .inl hlate
      · exact .inr (.inl hrefreshing)
      · exact .inr (.inr ⟨hr, hnew⟩)

theorem System.Inv.edit (h : sys.Inv place) (graph : Graph Sub) :
    { sys with canvas := graph, edited := true }.Inv place :=
  h.frame rfl rfl rfl rfl (fun _ h => h) (fun _ _ _ => h.answered)
    (fun _ _ _ _ _ hshows => .inr hshows) (fun _ _ _ _ _ _ => .inr nofun)

/-- The status and the messages are no part of what is shown. -/
theorem Store.Shows.of_eq {st st' : Store Sub Diag} {s : Session Sub Diag} {turn : Option ChatTurn}
    (h : st.Shows s turn) (heq : st' = { st with
      status := st'.status, error := st'.error
      rebaseNeeded := st'.rebaseNeeded, rebaseMessage := st'.rebaseMessage }) :
    st'.Shows s turn := by
  rw [heq]
  exact ⟨h.version, h.proposals, h.reviews, h.gates, h.attempts, h.checkpoints, h.tours,
    h.backend, h.persona, h.turns⟩

/-- Sending a request only marks the connection. -/
theorem act_cases {sys' : System Sub Diag} {r : Request} (hact : sys.act r = some sys') :
    ∃ session_id status error, sys' = { sys with
      flights := sys.flights ++ [{ request := r, session_id }]
      store := { sys.store with status, error } } := by
  have hsend : ∀ {id : Option String}, (id.map fun id => ({ sys with
      flights := sys.flights ++ [{ request := r, session_id := some id }] } : System Sub Diag)) =
        some sys' → ∃ session_id status error, sys' = { sys with
          flights := sys.flights ++ [{ request := r, session_id }]
          store := { sys.store with status, error } } := by
    intro id hid
    obtain ⟨id, -, rfl⟩ := Option.map_eq_some_iff.mp hid
    exact ⟨some id, sys.store.status, sys.store.error, rfl⟩
  cases r with
  | createAndJoin => exact ⟨none, .connecting, none, (Option.some.inj hact).symm⟩
  | join sessionId => exact ⟨some sessionId, .connecting, none, (Option.some.inj hact).symm⟩
  | pushLocalGraph =>
      rw [System.act] at hact
      split at hact
      next => exact hsend hact
      next => cases hact
  | _ => exact hsend hact

theorem System.Inv.act (h : sys.Inv place) {sys' : System Sub Diag} {r : Request}
    (hact : sys.act r = some sys') : sys'.Inv place := by
  obtain ⟨session_id, status, error, rfl⟩ := act_cases hact
  refine h.frame rfl rfl rfl rfl (fun _ h => h) ?_
    (fun _ _ _ _ _ hshows => .inr (hshows.of_eq rfl)) (fun _ _ _ _ _ hholds => .inr hholds)
  intro f v id hf hv
  rcases List.mem_append.mp hf with hf | hf
  · exact h.answered hf hv
  · rw [List.mem_singleton.mp hf] at hv
    cases hv

/-- An answer with a session is one with the session asked for. -/
theorem System.Inv.answer (h : sys.Inv place) {i : Nat} {f : Flight Sub Diag}
    {reply : Reply Sub Diag} {response : Response Sub Diag}
    (hresponse : sys.respond f reply = some response) :
    { sys with flights := sys.flights.set i { f with response := some response } }.Inv place := by
  refine h.frame rfl rfl rfl rfl (fun _ h => h) ?_
    (fun _ _ _ _ _ hshows => .inr hshows) (fun _ _ _ _ _ hholds => .inr hholds)
  intro f' v id hf' hv hid
  rcases List.mem_or_eq_of_mem_set hf' with hold | rfl
  · exact h.answered hold hv hid
  · cases hv
    cases reply with
    | session id' =>
        rw [System.respond] at hresponse
        split at hresponse
        next hasked =>
          obtain ⟨s, hs, heq⟩ := Option.map_eq_some_iff.mp hresponse
          cases heq
          rcases hasked with hnone | hsome
          · rw [hnone] at hid
            cases hid
          · rw [hsome] at hid
            cases hid
            exact h.ids hs
        next => cases hresponse
    | body body => cases body <;> cases hresponse

/-! ### Responses -/

/-- Putting a value where it already is changes nothing. -/
theorem set_of_get? {κ α : Type} [DecidableEq κ] {d : Dict κ α} {k : κ} {a : α}
    (h : d.get? k = some a) : d.set k a = d := by
  refine Dict.ext_get? ?_ fun k' => ?_
  · exact Dict.keys_set_of_mem d a ((Dict.mem_keys_iff_isSome d).mpr (by rw [h]; rfl))
  · rw [Dict.get?_set]
    split
    next heq => rw [← heq, h]
    next => rfl

/-- A failure only leaves a message. -/
theorem handle_error (place : Bool → Graph Sub → Graph Sub) (sys : System Sub Diag)
    (r : Request) (message : String) :
    ∃ status error rebaseNeeded rebaseMessage, sys.handle place r (.error message) =
      { sys with store := { sys.store with status, error, rebaseNeeded, rebaseMessage } } := by
  cases r with
  | pushLocalGraph | propose | accept | applyDirectMutation =>
      simp only [System.handle, System.conflict]
      split
      next => exact ⟨_, _, _, _, rfl⟩
      next => exact ⟨_, _, _, _, rfl⟩
  | _ => exact ⟨_, _, _, _, rfl⟩

theorem handle_joins (sys : System Sub Diag) {r : Request} (hjoins : r.joins = true)
    (s : Session Sub Diag) : sys.handle place r (.session s) =
      ((sys.loadIR place s.graph false).subscribe s.id).setSession s := by
  cases r <;> first | rfl | cases hjoins

/-- The handler of an action leaves the stream, the refresh and the queue. -/
theorem handle_frame (place : Bool → Graph Sub → Graph Sub) (sys : System Sub Diag)
    {r : Request} {response : Response Sub Diag}
    (hjoins : r.joins = false ∨ ∀ s, response ≠ .session s) :
    ∃ store canvas edited agentTurn, sys.handle place r response =
      { sys with store, canvas, edited, agentTurn } := by
  cases response with
  | error message =>
      obtain ⟨_, _, _, _, heq⟩ := handle_error place sys r message
      exact ⟨_, _, _, _, heq⟩
  | session s =>
      have hfalse := hjoins.resolve_right fun h => h s rfl
      cases r with
      | createAndJoin | join => cases hfalse
      | _ => exact ⟨_, _, _, _, rfl⟩
  | _ => cases r <;> exact ⟨_, _, _, _, rfl⟩

/-- A current response leaves the store showing the session. -/
theorem handle_shows {s : Session Sub Diag} {r : Request} {response : Response Sub Diag}
    (hshows : sys.store.Shows s sys.agentTurn) (hcurrent : sys.Current s r response)
    (hjoins : r.joins = false ∨ ∀ s, response ≠ .session s) :
    (sys.handle place r response).store.Shows s (sys.handle place r response).agentTurn := by
  cases response with
  | error message =>
      obtain ⟨_, _, _, _, heq⟩ := handle_error place sys r message
      rw [heq]
      exact hshows.of_eq rfl
  | session v =>
      have hfalse := hjoins.resolve_right fun h => h v rfl
      have hv := (applySession_shows v).congr hcurrent
      cases r with
      | createAndJoin | join => cases hfalse
      | pushLocalGraph | accept | reject =>
          exact { hshows with version := hv.version, proposals := hv.proposals }
      | endChat =>
          exact { hshows with
            version := hv.version, proposals := hv.proposals, reviews := hv.reviews
            gates := hv.gates, backend := hv.backend, persona := hv.persona, turns := hv.turns }
      | applyDirectMutation | revertCheckpoint => exact hv
      | _ => exact hshows
  | proposal p =>
      have hproposals : sys.store.proposals.set p.id p = s.proposals := by
        rw [hshows.proposals]
        exact set_of_get? hcurrent
      cases r with
      | propose | consult => exact { hshows with proposals := hproposals }
      | _ => exact hshows
  | review thread =>
      have hreviews : ∀ {k}, s.collab.reviews.get? k = some thread →
          sys.store.reviews.set k thread = s.collab.reviews := by
        intro k hk
        rw [hshows.reviews]
        exact set_of_get? hk
      cases r with
      | postReview | postReviewComment => exact { hshows with reviews := hreviews hcurrent }
      | _ => exact hshows
  | gate gate =>
      have hgates : ∀ {k}, s.collab.gates.get? k = some gate →
          sys.store.gates.set k gate = s.collab.gates := by
        intro k hk
        rw [hshows.gates]
        exact set_of_get? hk
      cases r with
      | openGate | closeGate | skipGate | addGateDecision =>
          exact { hshows with gates := hgates hcurrent }
      | _ => exact hshows
  | turn turn =>
      cases r with
      | startChat backend => exact hcurrent.elim
      | stopChat =>
          -- the answer repeats the turn that is shown
          have hmap : (sys.store.chat.turns.map fun t => if t.id = turn.id then turn else t) =
              sys.store.chat.turns := by
            refine (List.map_congr_left fun t ht => ?_).trans (List.map_id _)
            split
            next hid => exact (hcurrent t ht hid).symm
            next => rfl
          exact { hshows with turns := hmap.trans hshows.turns }
      | _ => exact hshows
  | checkpoints checkpoints =>
      cases r with
      | listCheckpoints => exact { hshows with checkpoints := hcurrent }
      | _ => exact hshows
  | result => cases r <;> exact hshows

/-- A handler loads the graph of its response, or none. -/
theorem handle_holds {graph : Graph Sub} {r : Request} {response : Response Sub Diag}
    (hholds : sys.Holds place graph)
    (hloads : r.loads = true → ∀ s, response = .session s → s.graph = graph) :
    (sys.handle place r response).Holds place graph := by
  cases response with
  | error message =>
      obtain ⟨_, _, _, _, heq⟩ := handle_error place sys r message
      rw [heq]
      exact hholds
  | session s =>
      cases r with
      | createAndJoin | join | accept | applyDirectMutation | revertCheckpoint =>
          exact fun _ => ⟨false, by rw [← hloads rfl s rfl]; rfl⟩
      | _ => exact hholds
  | _ => cases r <;> exact hholds

/-- The session of the store changes only to that of the response. -/
theorem handle_id (place : Bool → Graph Sub → Graph Sub) (sys : System Sub Diag)
    (r : Request) (response : Response Sub Diag) :
    (sys.handle place r response).store.sessionId = sys.store.sessionId ∨
      ∃ s, response = .session s ∧
        (sys.handle place r response).store.sessionId = some s.id := by
  cases response with
  | error message =>
      obtain ⟨_, _, _, _, heq⟩ := handle_error place sys r message
      rw [heq]
      exact .inl rfl
  | session s =>
      cases r with
      | createAndJoin | join | applyDirectMutation | revertCheckpoint => exact .inr ⟨s, rfl, rfl⟩
      | _ => exact .inl rfl
  | _ => cases r <;> exact .inl rfl

theorem System.Inv.receive (h : sys.Inv place) {i : Nat} {f : Flight Sub Diag}
    {response : Response Sub Diag} (hf : sys.flights[i]? = some f)
    (hresponse : f.response = some response) (hcareful : Careful place sys (.receive i)) :
    ({ sys with flights := sys.flights.eraseIdx i }.handle place f.request response).Inv place := by
  have hc := hcareful f response hf hresponse
  have hanswered : ∀ f' v id, f' ∈ sys.flights.eraseIdx i → f'.response = some (.session v) →
      f'.session_id = some id → v.id = id :=
    fun _ _ _ hf' => h.answered (List.mem_of_mem_eraseIdx hf')
  have hreceived : ({ sys with flights := sys.flights.eraseIdx i } : System Sub Diag).Inv place :=
    h.frame rfl rfl rfl rfl (fun _ h => h) hanswered
      (fun _ _ _ _ _ hshows => .inr hshows) (fun _ _ _ _ _ hholds => .inr hholds)
  by_cases herror : ∃ message, response = .error message
  · obtain ⟨message, rfl⟩ := herror
    obtain ⟨_, _, _, _, heq⟩ := handle_error place
      { sys with flights := sys.flights.eraseIdx i } f.request message
    rw [heq]
    exact hreceived.frame rfl rfl rfl rfl (fun _ h => h) hanswered
      (fun _ _ _ _ _ hshows => .inr (hshows.of_eq rfl)) (fun _ _ _ _ _ hholds => .inr hholds)
  -- an answer without content changes nothing
  by_cases hresult : response = .result
  · subst hresult
    have heq : System.handle place { sys with flights := sys.flights.eraseIdx i } f.request .result =
        { sys with flights := sys.flights.eraseIdx i } := by
      cases f.request <;> rfl
    rw [heq]
    exact hreceived
  by_cases hjoin : f.request.joins = true ∧ ∃ s, response = .session s
  · obtain ⟨hjoins, s, rfl⟩ := hjoin
    rw [hjoins] at hc
    rw [handle_joins _ hjoins]
    -- the new stream is empty and not registered yet
    refine ⟨h.ids, ?_, ?_, ?_, fun hf' => hanswered _ _ _ hf', ?_, ?_⟩
    · intro sub hsub
      cases hsub
      rfl
    · intro sub e hsub he
      cases hsub
      cases he
    · intro e he
      exact ⟨congrArg some (hc e he).symm, (h.queued he).2⟩
    · intro sub s' hsub hlive
      cases hsub
      cases hlive
    · intro sub s' hsub hlive
      cases hsub
      cases hlive
  · -- the stream that is followed stays, so only what it shows is at stake
    have hfollowed : f.request.joins = false ∨ ∀ s, response ≠ .session s := by
      by_cases hjoins : f.request.joins = true
      · exact .inr fun s hs => hjoin ⟨hjoins, s, hs⟩
      · exact .inl (Bool.eq_false_iff.mpr hjoins)
    have hc : sys.CarefulResponse f response := by
      split at hc
      next hjoins => exact absurd ⟨hjoins, _, rfl⟩ hjoin
      next => exact absurd rfl hresult
      next => exact absurd ⟨_, rfl⟩ herror
      next => exact hc
    obtain ⟨hid, hc⟩ := hc
    obtain ⟨store, canvas, edited, agentTurn, heq⟩ := handle_frame place
      { sys with flights := sys.flights.eraseIdx i } hfollowed
    refine hreceived.frame (by rw [heq]) (by rw [heq]) (by rw [heq]) (by rw [heq]) ?_
      (by rw [heq]; exact hanswered) ?_ ?_
    · intro id hstore
      rcases handle_id place { sys with flights := sys.flights.eraseIdx i }
        f.request response with hkeep | ⟨s, rfl, hset⟩
      · exact hkeep.trans hstore
      · rw [hset, h.answered (List.mem_of_getElem? hf) hresponse (hid.symm.trans hstore)]
    · intro sub s hsub hlive hs hshows
      rcases hc sub s hsub hlive hs with hcurrent | ⟨hagain, -⟩
      · exact .inr (handle_shows hshows hcurrent hfollowed)
      · exact .inl hagain
    · intro sub s hsub hlive hs hholds
      rcases hc sub s hsub hlive hs with hcurrent | ⟨-, hagain⟩
      · refine .inr (handle_holds hholds fun hloads v hv => ?_)
        subst hv
        cases hr : f.request <;> rw [hr] at hcurrent <;> exact graph_of_unthreaded hcurrent
      · by_cases hloads : f.request.loads = true
        · exact .inl (hagain hloads)
        · exact .inr (handle_holds hholds fun h => absurd h hloads)

/-! ### The refresh -/

/-- The refresh may get any answer but an old session. -/
theorem System.Inv.respond (h : sys.Inv place) {r : Refresh Sub Diag}
    (hr : sys.inFlightRefresh = some r) {response : Except String (Session Sub Diag)}
    (hresponse : ∀ v, response = .ok v → sys.sessions.get? r.session_id = some v) :
    { sys with inFlightRefresh := some { r with response := some response } }.Inv place := by
  refine ⟨h.ids, h.stream, h.queue, h.queued, h.answered, ?_, ?_⟩
  · intro sub s hsub hlive hs
    rcases h.synced hsub hlive hs with hlate | ⟨r', hr', hid, -⟩ | ⟨hother, hshows⟩
    · exact .inl hlate
    · cases hr.symm.trans hr'
      refine .inr (.inl ⟨_, rfl, hid, fun v hv => ?_⟩)
      have hget := hresponse v (Option.some.inj hv)
      rw [hid, h.ids hs] at hget
      cases hs.symm.trans hget
      rfl
    · refine .inr (.inr ⟨fun r' hr' => ?_, hshows⟩)
      cases hr'
      exact hother r hr
  · intro sub s hsub hlive hs
    rcases h.graph hsub hlive hs with hlate | ⟨r', hr', hid, htype, -⟩ | ⟨hother, hholds⟩
    · exact .inl hlate
    · cases hr.symm.trans hr'
      refine .inr (.inl ⟨_, rfl, hid, htype, fun v hv => ?_⟩)
      have hget := hresponse v (Option.some.inj hv)
      rw [hid, h.ids hs] at hget
      cases hs.symm.trans hget
      rfl
    · refine .inr (.inr ⟨fun r' hr' => ?_, hholds⟩)
      cases hr'
      exact hother r hr

/-- A refresh leaves the stream, the refresh under way and the queue. -/
theorem refreshFromServer_frame (place : Bool → Graph Sub → Graph Sub) (sys : System Sub Diag)
    (id now : String) (e : Event)
    (response : Except String (Session Sub Diag)) :
    ∃ store canvas edited agentTurn, sys.refreshFromServer place id e now response =
      { sys with store, canvas, edited, agentTurn } ∧ store.sessionId = sys.store.sessionId := by
  by_cases hid : sys.store.sessionId = some id
  · cases response with
    | error message =>
        rw [System.refreshFromServer, if_neg (not_not_intro hid)]
        exact ⟨_, _, _, _, rfl, rfl⟩
    | ok v =>
        rw [System.refreshFromServer, if_neg (not_not_intro hid)]
        simp only
        split
        next => exact ⟨_, _, _, _, rfl, rfl⟩
        next => exact ⟨_, _, _, _, rfl, rfl⟩
  · rw [refreshFromServer_left hid]
    exact ⟨_, _, _, _, rfl, rfl⟩

/-- The store then shows the session the refresh read. -/
theorem refreshFromServer_shows {id : String} (hid : sys.store.sessionId = some id) (e : Event)
    (now : String) (v : Session Sub Diag) :
    (sys.refreshFromServer place id e now (.ok v)).store.Shows v
      (sys.refreshFromServer place id e now (.ok v)).agentTurn := by
  rw [System.refreshFromServer, if_neg (not_not_intro hid)]
  simp only
  split
  next => exact ⟨rfl, rfl, rfl, rfl, rfl, rfl, rfl, rfl, rfl, rfl⟩
  next => exact ⟨rfl, rfl, rfl, rfl, rfl, rfl, rfl, rfl, rfl, rfl⟩

/-- A refresh for a graph event loads the graph it read. -/
theorem refreshFromServer_holds {id : String} (hid : sys.store.sessionId = some id) {e : Event}
    (htype : isGraphEvent e.type = true) (now : String) (v : Session Sub Diag) :
    (sys.refreshFromServer place id e now (.ok v)).Holds place v.graph := by
  rw [System.refreshFromServer, if_neg (not_not_intro hid)]
  simp only [htype, if_true]
  exact fun _ => ⟨_, rfl⟩

/-- A refresh that failed leaves what is shown. -/
theorem refreshFromServer_error (place : Bool → Graph Sub → Graph Sub) (sys : System Sub Diag)
    (id now : String) (e : Event)
    (message : String) :
    ∃ error, sys.refreshFromServer place id e now (.error message) =
      { sys with store := { sys.store with error } } := by
  by_cases hid : sys.store.sessionId = some id
  · rw [System.refreshFromServer, if_neg (not_not_intro hid)]
    exact ⟨_, rfl⟩
  · rw [refreshFromServer_left hid]
    exact ⟨_, rfl⟩

/-- Another refresh leaves the canvas. -/
theorem refreshFromServer_canvas {id : String} {e : Event} {now : String}
    {response : Except String (Session Sub Diag)} {graph : Graph Sub}
    (h : isGraphEvent e.type = false) (hholds : sys.Holds place graph) :
    (sys.refreshFromServer place id e now response).Holds place graph := by
  by_cases hid : sys.store.sessionId = some id
  · cases response with
    | error message =>
        rw [System.refreshFromServer, if_neg (not_not_intro hid)]
        exact hholds
    | ok v =>
        rw [System.refreshFromServer, if_neg (not_not_intro hid)]
        simp only [h]
        exact hholds
  · rw [refreshFromServer_left hid]
    exact hholds

/-- After a refresh the session that is followed is shown, or another
refresh is still to come. -/
theorem System.Inv.refreshed (h : sys.Inv place) {r : Refresh Sub Diag}
    {response : Except String (Session Sub Diag)} {now : String}
    (hr : sys.inFlightRefresh = some r) (hresponse : r.response = some response)
    (hcareful : Careful place sys (.refreshed now)) {sub : Subscription} {s : Session Sub Diag}
    (hsub : sys.activeSubscription = some sub) (hlive : sub.live = true)
    (hs : sys.sessions.get? sub.session_id = some s) :
    (sys.Late sub ∨ (sys.refreshFromServer place r.session_id r.event now response).store.Shows s
      (sys.refreshFromServer place r.session_id r.event now response).agentTurn) ∧
    (sys.GraphLate sub ∨
      (sys.refreshFromServer place r.session_id r.event now response).Holds place s.graph) := by
  have hstore := h.session_id hsub hs
  cases response with
  | error message =>
      obtain ⟨error, heq⟩ := refreshFromServer_error place sys r.session_id now r.event
        message
      obtain ⟨hshown, hheld⟩ := hcareful r message sub s hr hresponse hsub hlive hs
      rw [heq]
      exact ⟨hshown.imp_right fun hshows => hshows.of_eq rfl, hheld⟩
  | ok v =>
      by_cases hid : r.session_id = s.id
      · constructor
        · rcases h.synced hsub hlive hs with hlate | ⟨r', hr', -, hv⟩ | ⟨hother, -⟩
          · exact .inl hlate
          · cases hr.symm.trans hr'
            exact .inr ((refreshFromServer_shows (hid ▸ hstore) r.event now v).congr
              (hv v hresponse))
          · exact absurd hid (hother r hr)
        · rcases h.graph hsub hlive hs with hlate | ⟨r', hr', -, htype, hv⟩ | ⟨hother, hholds⟩
          · exact .inl hlate
          · cases hr.symm.trans hr'
            rw [← hv v hresponse]
            exact .inr (refreshFromServer_holds (hid ▸ hstore) htype now v)
          · exact .inr (refreshFromServer_canvas (hother r hr hid) hholds)
      · -- a session that was left: the refresh changes nothing
        have hleft : sys.store.sessionId ≠ some r.session_id := by
          rw [hstore]
          exact fun heq => hid (Option.some.inj heq).symm
        rw [refreshFromServer_left hleft]
        constructor
        · rcases h.synced hsub hlive hs with hlate | ⟨r', hr', hid', -⟩ | ⟨-, hshows⟩
          · exact .inl hlate
          · cases hr.symm.trans hr'
            exact absurd hid' hid
          · exact .inr hshows
        · rcases h.graph hsub hlive hs with hlate | ⟨r', hr', hid', -⟩ | ⟨-, hholds⟩
          · exact .inl hlate
          · cases hr.symm.trans hr'
            exact absurd hid' hid
          · exact .inr hholds

theorem System.Inv.next_refresh (h : sys.Inv place) {r : Refresh Sub Diag}
    {response : Except String (Session Sub Diag)} {now : String}
    (hr : sys.inFlightRefresh = some r) (hresponse : r.response = some response)
    (hcareful : Careful place sys (.refreshed now)) :
    (sys.refreshFromServer place r.session_id r.event now response).next_refresh.Inv place := by
  have hafter := fun sub (s : Session Sub Diag) hsub hlive hs =>
    h.refreshed hr hresponse hcareful (s := s) (hsub : sys.activeSubscription = some sub) hlive hs
  obtain ⟨store, canvas, edited, agentTurn, heq, hid⟩ := refreshFromServer_frame place
    sys r.session_id now r.event response
  rw [heq] at hafter ⊢
  have hstream : ∀ {sub}, sys.activeSubscription = some sub →
      store.sessionId = some sub.session_id := fun hsub => hid.trans (h.stream hsub)
  rcases Option.eq_none_or_eq_some sys.queuedEvent with hq | ⟨e, hq⟩
  · have hnext : ({ sys with store, canvas, edited, agentTurn } : System Sub Diag).next_refresh =
        { sys with store, canvas, edited, agentTurn, inFlightRefresh := none, queuedEvent := none } :=
      next_refresh_none hq
    rw [hnext]
    refine ⟨h.ids, hstream, h.queue, nofun, h.answered, ?_, ?_⟩
    · intro sub s hsub hlive hs
      rcases (hafter sub s hsub hlive hs).1 with (hlate | hqueued) | hshows
      · exact .inl (.inl hlate)
      · rw [hq] at hqueued
        cases hqueued
      · exact .inr (.inr ⟨(fun _ h => nomatch h), hshows⟩)
    · intro sub s hsub hlive hs
      rcases (hafter sub s hsub hlive hs).2 with (hlate | ⟨e, he, -⟩) | hholds
      · exact .inl (.inl hlate)
      · cases hq.symm.trans he
      · exact .inr (.inr ⟨(fun _ h => nomatch h), hholds⟩)
  · obtain ⟨hsid, htype⟩ := h.queued hq
    have hnext : ({ sys with store, canvas, edited, agentTurn } : System Sub Diag).next_refresh =
        { sys with store, canvas, edited, agentTurn
                   inFlightRefresh := some { session_id := e.session_id, event := e }
                   queuedEvent := none } :=
      next_refresh_some hq (hid.trans hsid) htype
    rw [hnext]
    -- the event is of the session that is followed
    have hours : ∀ {sub s}, sys.activeSubscription = some sub →
        sys.sessions.get? sub.session_id = some s → e.session_id = s.id := by
      intro sub s hsub hs
      exact Option.some.inj (hsid.symm.trans (h.session_id hsub hs))
    refine ⟨h.ids, hstream, h.queue, nofun, h.answered, ?_, ?_⟩
    · exact fun hsub _ hs => .inr (.inl ⟨_, rfl, hours hsub hs, nofun⟩)
    · intro sub s hsub hlive hs
      by_cases hgraph : isGraphEvent e.type = true
      · exact .inr (.inl ⟨_, rfl, hours hsub hs, hgraph, nofun⟩)
      · rcases (hafter sub s hsub hlive hs).2 with (hlate | ⟨e', he', hgraph'⟩) | hholds
        · exact .inl (.inl hlate)
        · cases hq.symm.trans he'
          exact absurd hgraph' hgraph
        · refine .inr (.inr ⟨fun r' hr' _ => ?_, hholds⟩)
          cases hr'
          exact Bool.eq_false_iff.mpr hgraph

/-! ### The stream -/

theorem System.Inv.register (h : sys.Inv place) {sub : Subscription}
    (hsub : sys.activeSubscription = some sub) (hcareful : Careful place sys .register) :
    { sys with activeSubscription := some { sub with live := true } }.Inv place := by
  have hstream := h.stream hsub
  have hqueue := fun e => h.queue hsub (e := e)
  refine ⟨h.ids, ?_, ?_, h.queued, h.answered, ?_, ?_⟩
  · intro sub' hsub'
    cases hsub'
    exact hstream
  · intro sub' e hsub'
    cases hsub'
    exact hqueue e
  · intro sub' s hsub' _ hs
    cases hsub'
    exact (hcareful sub s hsub hs).1
  · intro sub' s hsub' _ hs
    cases hsub'
    exact (hcareful sub s hsub hs).2

theorem System.Inv.disconnect (h : sys.Inv place) {sub : Subscription}
    (hsub : sys.activeSubscription = some sub) :
    { sys with activeSubscription := some { sub with live := false, queue := [] } }.Inv place := by
  have hstream := h.stream hsub
  refine ⟨h.ids, ?_, ?_, h.queued, h.answered, ?_, ?_⟩
  · intro sub' hsub'
    cases hsub'
    exact hstream
  · intro sub' e hsub' he
    cases hsub'
    cases he
  · intro sub' s hsub' hlive
    cases hsub'
    cases hlive
  · intro sub' s hsub' hlive
    cases hsub'
    cases hlive

/-- A dropped frame brings no refresh. -/
theorem System.Inv.drop (h : sys.Inv place) {sub : Subscription} {frame : Frame}
    {rest : List Frame} (hsub : sys.activeSubscription = some sub)
    (hqueue : sub.queue = frame :: rest) (hframe : validateSessionEvent frame = none) :
    { sys with activeSubscription := some { sub with queue := rest } }.Inv place := by
  have hstream := h.stream hsub
  have hrest : ∀ {e}, Frame.event e ∈ rest → Frame.event e ∈ sub.queue := by
    intro e he
    rw [hqueue]
    exact List.mem_cons_of_mem _ he
  -- the frame was no event, so no event is lost with it
  have hkept : ∀ e, Frame.event e ∈ sub.queue → Frame.event e ∈ rest := by
    intro e he
    rw [hqueue] at he
    rcases List.mem_cons.mp he with rfl | he
    · cases hframe
    · exact he
  have hours := fun e => h.queue hsub (e := e)
  have hsynced := fun s => h.synced hsub (s := s)
  have hgraph := fun s => h.graph hsub (s := s)
  refine ⟨h.ids, ?_, ?_, h.queued, h.answered, ?_, ?_⟩
  · intro sub' hsub'
    cases hsub'
    exact hstream
  · intro sub' e hsub' he
    cases hsub'
    exact hours e (hrest he)
  · intro sub' s hsub' hlive hs
    cases hsub'
    exact (hsynced s hlive hs).of_unthreaded rfl rfl hkept
  · intro sub' s hsub' hlive hs
    cases hsub'
    exact (hgraph s hlive hs).of_graph rfl rfl hkept

/-- The event at the head of the stream starts a refresh, or waits for the
one under way; the events behind it are still to come. -/
theorem System.Inv.deliver (h : sys.Inv place) {sub : Subscription} {e : Event}
    {rest : List Frame} (hsub : sys.activeSubscription = some sub)
    (hqueue : sub.queue = .event e :: rest) :
    ({ sys with activeSubscription := some { sub with queue := rest } }.handleSessionEvent e).Inv
      place := by
  have hstream := h.stream hsub
  have hours : ∀ e', Frame.event e' ∈ sub.queue → e'.session_id = sub.session_id :=
    fun e' => h.queue hsub
  -- an event of the queue is the one delivered or still to come
  have hmem : ∀ {e'}, Frame.event e' ∈ sub.queue → e' = e ∨ Frame.event e' ∈ rest := by
    intro e' he'
    rw [hqueue] at he'
    rcases List.mem_cons.mp he' with heq | he'
    · exact .inl (Frame.event.inj heq)
    · exact .inr he'
  have hstream' : ∀ {sub'}, some { sub with queue := rest } = some sub' →
      sys.store.sessionId = some sub'.session_id := by
    intro sub' hsub'
    cases hsub'
    exact hstream
  have hqueue' : ∀ {sub' e'}, some { sub with queue := rest } = some sub' →
      Frame.event e' ∈ sub'.queue → e'.session_id = sub'.session_id := by
    intro sub' e' hsub' he'
    cases hsub'
    exact hours e' (by rw [hqueue]; exact List.mem_cons_of_mem _ he')
  have he : e.session_id = sub.session_id := hours e (by rw [hqueue]; exact List.mem_cons_self)
  have hsynced := fun s => h.synced hsub (s := s)
  have hgraph := fun s => h.graph hsub (s := s)
  have hid : ∀ {s}, sys.sessions.get? sub.session_id = some s → e.session_id = s.id :=
    fun hs => he.trans (h.ids hs).symm
  rcases handleSessionEvent_cases { sys with activeSubscription := some { sub with queue := rest } } e
    with ⟨heq, hnot⟩ | ⟨heq, htype, queued, hq, hqgraph⟩ | ⟨hsid, htype, -, hkeep, heq⟩ |
      ⟨hsid, htype, hnone, heq⟩ <;>
    rw [heq]
  · -- a run that completed
    have hrun : e.type = .run_completed := hnot.resolve_left fun hne => hne (he ▸ hstream)
    refine ⟨h.ids, hstream', hqueue', h.queued, h.answered, ?_, ?_⟩
    · intro sub' s hsub' hlive hs
      cases hsub'
      rcases hsynced s hlive hs with (⟨e', he', htype⟩ | hq) | hrefreshing
      · rcases hmem he' with rfl | he'
        · exact absurd hrun htype
        · exact .inl (.inl ⟨e', he', htype⟩)
      · exact .inl (.inr hq)
      · exact .inr hrefreshing
    · intro sub' s hsub' hlive hs
      cases hsub'
      rcases hgraph s hlive hs with (⟨e', he', htype⟩ | hq) | hrefreshing
      · rcases hmem he' with rfl | he'
        · rw [hrun] at htype
          cases htype
        · exact .inl (.inl ⟨e', he', htype⟩)
      · exact .inl (.inr hq)
      · exact .inr hrefreshing
  · -- a graph event is queued already
    refine ⟨h.ids, hstream', hqueue', h.queued, h.answered, ?_, ?_⟩
    · exact fun _ _ _ => .inl (.inr (Option.isSome_iff_exists.mpr ⟨queued, hq⟩))
    · exact fun _ _ _ => .inl (.inr ⟨queued, hq, hqgraph⟩)
  · -- the event is queued
    refine ⟨h.ids, hstream', hqueue', ?_, h.answered, ?_, ?_⟩
    · intro e' he'
      cases he'
      exact ⟨hsid, htype⟩
    · exact fun _ _ _ => .inl (.inr rfl)
    · intro sub' s hsub' hlive hs
      cases hsub'
      rcases hgraph s hlive hs with (⟨e', he', htype'⟩ | ⟨queued, hq, hqgraph⟩) | hrefreshing
      · rcases hmem he' with rfl | he'
        · exact .inl (.inr ⟨e', rfl, htype'⟩)
        · exact .inl (.inl ⟨e', he', htype'⟩)
      · exact .inl (.inr ⟨e, rfl, hkeep queued hq hqgraph⟩)
      · exact .inr hrefreshing
  · -- the event starts a refresh
    have hidle : sys.inFlightRefresh = none := hnone
    refine ⟨h.ids, hstream', hqueue', h.queued, h.answered, ?_, ?_⟩
    · intro sub' s hsub' hlive hs
      cases hsub'
      exact .inr (.inl ⟨_, rfl, hid hs, nofun⟩)
    · intro sub' s hsub' hlive hs
      cases hsub'
      by_cases hevent : isGraphEvent e.type = true
      · exact .inr (.inl ⟨_, rfl, hid hs, hevent, nofun⟩)
      · rcases hgraph s hlive hs with (⟨e', he', htype'⟩ | hq) | ⟨r, hr, -⟩ | ⟨-, hholds⟩
        · rcases hmem he' with rfl | he'
          · exact absurd htype' hevent
          · exact .inl (.inl ⟨e', he', htype'⟩)
        · exact .inl (.inr hq)
        · cases hidle.symm.trans hr
        · refine .inr (.inr ⟨fun r hr _ => ?_, hholds⟩)
          cases hr
          exact Bool.eq_false_iff.mpr hevent

end Steps

/-! ## Every run -/

/-- A careful step keeps the invariant. -/
theorem System.Inv.step {sys sys' : System Sub Diag} (h : sys.Inv place) {a : Action Sub Diag}
    (hcareful : Careful place sys a) (hstep : sys.step place a = some sys') : sys'.Inv place := by
  cases a with
  | write id w =>
      obtain ⟨s, hs, rfl⟩ := Option.map_eq_some_iff.mp hstep
      exact h.write hs hcareful
  | create id graph =>
      simp only [System.step] at hstep
      split at hstep
      next => cases hstep
      next hnew =>
        cases hstep
        rw [Bool.or_eq_true, not_or] at hnew
        exact h.create graph (Bool.eq_false_iff.mpr hnew.2)
  | delete id =>
      cases hstep
      exact h.delete id
  | edit graph =>
      cases hstep
      exact h.edit graph
  | act r => exact h.act hstep
  | leave =>
      cases hstep
      exact h.leave
  | answer i reply =>
      obtain ⟨f, -, hstep⟩ := Option.bind_eq_some_iff.mp hstep
      split at hstep
      next => cases hstep
      next =>
        obtain ⟨response, hresponse, rfl⟩ := Option.map_eq_some_iff.mp hstep
        exact h.answer hresponse
  | receive i =>
      obtain ⟨f, hf, hstep⟩ := Option.bind_eq_some_iff.mp hstep
      obtain ⟨response, hresponse, rfl⟩ := Option.map_eq_some_iff.mp hstep
      exact h.receive hf hresponse hcareful
  | answerRefresh =>
      obtain ⟨r, hr, hstep⟩ := Option.bind_eq_some_iff.mp hstep
      split at hstep
      next => cases hstep
      next =>
        cases hstep
        refine h.respond hr fun v hv => ?_
        split at hv
        next s hs =>
          cases hv
          exact hs
        next => cases hv
  | failRefresh message =>
      obtain ⟨r, hr, rfl⟩ := Option.map_eq_some_iff.mp hstep
      refine h.respond hr fun v hv => ?_
      cases hv
  | refreshed now =>
      obtain ⟨r, hr, hstep⟩ := Option.bind_eq_some_iff.mp hstep
      obtain ⟨response, hresponse, rfl⟩ := Option.map_eq_some_iff.mp hstep
      exact h.next_refresh hr hresponse hcareful
  | register =>
      obtain ⟨sub, hsub, hstep⟩ := Option.bind_eq_some_iff.mp hstep
      split at hstep
      next => cases hstep
      next =>
        cases hstep
        exact h.register hsub hcareful
  | disconnect =>
      obtain ⟨sub, hsub, rfl⟩ := Option.map_eq_some_iff.mp hstep
      exact h.disconnect hsub
  -- a frame that is no session event is dropped
  | deliver =>
      obtain ⟨sub, hsub, hstep⟩ := Option.bind_eq_some_iff.mp hstep
      split at hstep
      next => cases hstep
      next frame rest hqueue =>
        simp only at hstep
        split at hstep
        next hframe =>
          cases hstep
          exact h.drop hsub hqueue hframe
        next e hframe =>
          cases hstep
          cases frame with
          | event e' =>
              cases hframe
              exact h.deliver hsub hqueue
          | attempt_recorded session_id attempt_id => cases hframe

/-- Before any session is joined there is nothing to follow. -/
theorem System.Inv.start {sessions : Dict String (Session Sub Diag)}
    (hids : ∀ k s, sessions.get? k = some s → s.id = k) :
    ({ sessions } : System Sub Diag).Inv place :=
  ⟨fun hs => hids _ _ hs, nofun, nofun, nofun, nofun, nofun, nofun⟩

theorem System.Inv.exec {sys sys' : System Sub Diag} (h : sys.Inv place)
    {actions : List (Action Sub Diag)} (hcareful : CarefulRun place sys actions)
    (hexec : sys.exec place actions = some sys') : sys'.Inv place := by
  induction actions generalizing sys with
  | nil =>
      cases hexec
      exact h
  | cons a actions ih =>
      rw [System.exec] at hexec
      split at hexec
      next => cases hexec
      next sys₁ hstep => exact ih (h.step hcareful.1 hstep) (hcareful.2 sys₁ hstep) hexec

/-- Over every run of careful steps the canvas converges to the session it
follows. -/
theorem session_converges {sessions : Dict String (Session Sub Diag)}
    (hids : ∀ k s, sessions.get? k = some s → s.id = k) {actions : List (Action Sub Diag)}
    (hcareful : CarefulRun place { sessions } actions) {sys : System Sub Diag}
    (hexec : System.exec place { sessions } actions = some sys) : Converges place sys :=
  (System.Inv.exec (System.Inv.start hids) hcareful hexec).converges

/-! ## An agent's edit -/

theorem CarefulRun.cons {sys sys₁ : System Sub Diag} {a : Action Sub Diag}
    {actions : List (Action Sub Diag)} (hstep : sys.step place a = some sys₁)
    (hcareful : Careful place sys a) (hrest : CarefulRun place sys₁ actions) :
    CarefulRun place sys (a :: actions) := by
  refine ⟨hcareful, fun sys' hstep' => ?_⟩
  cases hstep.symm.trans hstep'
  exact hrest

/-- An agent edits the graph of the session the canvas has joined. -/
def agent_edit : List (Action Unit Unit) :=
  [.act (.join "s"), .answer 0 (.session "s"), .receive 0, .register,
    .write "s" (.apply_direct_mutation { name := some "edited" } Dict.empty "c" "agent" "renamed"),
    .deliver, .answerRefresh, .refreshed "0"]

/-- The turn the canvas adds for it. -/
def agent_edit_turn : ChatTurn where
  id := "agent-c"
  backend := "agent"
  user_message := ""
  agent_message := some "renamed"
  status := .COMPLETED

/-- The session before and after the edit. -/
def edited_session (edited : Bool) : Session Unit Unit :=
  if edited then { id := "s", graph := { name := some "edited" }, version := 1 } else { id := "s" }

def agent_edited : System Unit Unit where
  sessions := Dict.empty.set "s" (edited_session true)
  store := { applySession (edited_session true) with chat := { turns := [agent_edit_turn] } }
  canvas := { name := some "edited" }
  activeSubscription := some { session_id := "s", live := true }
  agentTurn := some agent_edit_turn

theorem edited_session_ids : ∀ k s,
    (Dict.empty.set "s" (edited_session false)).get? k = some s → s.id = k := by
  intro k s hk
  rw [Dict.get?_set] at hk
  split at hk
  next heq =>
    cases hk
    exact heq
  next => cases hk

theorem agent_edit_exec : System.exec (fun _ graph => graph)
    { sessions := Dict.empty.set "s" (edited_session false) } agent_edit = some agent_edited := rfl

theorem agent_edit_careful : CarefulRun (fun _ graph => graph)
    { sessions := Dict.empty.set "s" (edited_session false) } agent_edit := by
  unfold agent_edit
  refine .cons rfl trivial (.cons rfl trivial (.cons rfl ?_ (.cons rfl ?_ (.cons rfl trivial
    (.cons rfl trivial (.cons rfl trivial (.cons rfl ?_ trivial)))))))
  · intro f response hf hresponse
    cases hf
    cases hresponse
    exact nofun
  · intro sub s hsub hs
    cases hsub
    cases hs
    exact ⟨.inr (.inr ⟨(fun _ h => nomatch h), applySession_shows _⟩),
      .inr (.inr ⟨(fun _ h => nomatch h), fun _ => ⟨false, rfl⟩⟩)⟩
  · intro r message sub s hr hresponse
    cases hr
    cases hresponse

theorem agent_edit_converges : Converges (fun _ graph => graph) agent_edited :=
  session_converges edited_session_ids agent_edit_careful agent_edit_exec

/-- The canvas does not show the chat of the server: it ends with a turn for
the edit that only the canvas has. -/
theorem agent_turn_only_on_canvas :
    ¬ ∀ (place : Bool → Graph Unit → Graph Unit) (sessions : Dict String (Session Unit Unit))
      (actions : List (Action Unit Unit)) (sys : System Unit Unit),
      (∀ k s, sessions.get? k = some s → s.id = k) →
      System.exec place { sessions } actions = some sys →
        ∀ sub s, sys.Quiet sub → sys.sessions.get? sub.session_id = some s →
          (sys.edited = false → ∃ reflow, sys.canvas = place reflow s.graph) ∧
            sys.store.version = some s.version ∧ sys.store.proposals = s.proposals ∧
            sys.store.reviews = s.collab.reviews ∧ sys.store.gates = s.collab.gates ∧
            sys.store.chat = s.collab.chat ∧ sys.store.attempts = s.attempts ∧
            sys.store.checkpoints = s.checkpoints ∧ sys.store.tours = s.tours := by
  intro h
  obtain ⟨-, -, -, -, -, hchat, -⟩ := h (fun _ graph => graph) _ agent_edit agent_edited
    edited_session_ids agent_edit_exec _ _ ⟨rfl, rfl, rfl, rfl, rfl⟩ rfl
  exact absurd hchat (by decide)

end EmergentFlow.Sync
