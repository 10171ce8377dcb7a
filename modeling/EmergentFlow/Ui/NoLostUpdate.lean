import EmergentFlow.Ui.SessionClient

/-!
# Ui — NoLostUpdate

When a push of the canvas can overwrite a graph the canvas has never seen
(`ui/src/session/sessionStore.ts` against `emergentflow/collab/session.py`).
The version the canvas holds is its only guard. `Careful` says of one step
that it does not set that version to one whose graph is not loaded;
`no_lost_update` proves the guard sound over every run of careful steps.
-/

namespace EmergentFlow

variable {Sub Diag : Type} {v : Validation Sub Diag} {sid : String}

/-! ## The condition and the property -/

/-- The version in a response that is about to be handled is the one its
handler may set: a push gets the version its own replacement made, and a
handler that loads no graph gets the version of the graph last loaded. -/
def Careful (sid : String) (sys : System Sub Diag) : Action Sub → Prop
  | .receive i =>
      match sys.flights[i]? with
      | some { request := .pushLocalGraph _ expected, phase := .answered (.session n _) } =>
          n = expected + 1
      | some { request := .reject _, phase := .answered (.session n _) }
      | some { request := .endChat, phase := .answered (.session n _) } => sys.loaded = some n
      | some { request := .refresh event, phase := .answered (.session n _) } =>
          sys.client.sessionId = some sid → isGraphEvent event = false → sys.loaded = some n
      | _ => True
  | _ => True

/-- Every step of the run is careful. -/
def CarefulRun (v : Validation Sub Diag) (sid : String) : System Sub Diag → List (Action Sub) → Prop
  | _, [] => True
  | sys, a :: actions =>
      Careful sid sys a ∧ ∀ sys', sys.step v sid a = some sys' → CarefulRun v sid sys' actions

/-- No update is lost: the version held is that of the graph last loaded or
pushed, a push that succeeds replaces a graph the canvas had seen, and any
other push is refused as stale. -/
structure NoLostUpdate (sid : String) (sys : System Sub Diag) : Prop where
  version_loaded : ∀ n, sys.client.version = some n → sys.loaded = some n
  push_seen : ∀ g n st', Flight.mk (.pushLocalGraph g n) .sent ∈ sys.flights →
    SessionStore.replace_graph sid g n sys.store = (.ok (), st') →
      ∃ s, sys.store.sessions.get? sid = some s ∧ s.version = n ∧ (n, s.graph) ∈ sys.seen
  push_stale : ∀ g n s, Flight.mk (.pushLocalGraph g n) .sent ∈ sys.flights →
    sys.store.sessions.get? sid = some s → (n, s.graph) ∉ sys.seen →
      SessionStore.replace_graph sid g n sys.store
        = (.error (.stale_version sid n s.version), sys.store)

/-! ## The invariant -/

/-- A graph the server had at version `n`: should the session still be at
that version, it has this graph. -/
def Known (sid : String) (st : SessionStore Sub Diag) (n : Int) (g : Graph Sub) : Prop :=
  ∃ s, st.sessions.get? sid = some s ∧ n ≤ s.version ∧ (n = s.version → s.graph = g)

theorem Known.after {st : SessionStore Sub Diag} {n : Int} {g : Graph Sub}
    (h : Known sid st n g) (c : Call Sub) : Known sid (c.after v st) n g := by
  obtain ⟨s, hs, hle, hgraph⟩ := h
  obtain ⟨s', hs', hversion, hsame⟩ := version_next (v := v) (c := c) hs
  refine ⟨s', hs', ?_, ?_⟩
  · split at hversion <;> omega
  · intro heq
    cases hrep : c.replaces v sid st with
    | true =>
        simp only [hrep, if_true] at hversion
        omega
    | false =>
        simp only [hrep, Bool.false_eq_true, if_false, Int.add_zero] at hversion
        rw [hsame hrep, hgraph (by omega)]

/-- The invariant of the system. -/
structure System.Inv (sid : String) (sys : System Sub Diag) : Prop where
  live : ∃ s, sys.store.sessions.get? sid = some s
  held : ∀ n, sys.client.version = some n → sys.loaded = some n
  loaded_seen : ∀ n, sys.loaded = some n → ∃ g, (n, g) ∈ sys.seen
  seen_known : ∀ n g, (n, g) ∈ sys.seen → Known sid sys.store n g
  push_sent : ∀ g n, Flight.mk (.pushLocalGraph g n) .sent ∈ sys.flights →
    ∃ g', (n, g') ∈ sys.seen
  push_served : ∀ g n, Flight.mk (.pushLocalGraph g n) .served ∈ sys.flights →
    Known sid sys.store (n + 1) g
  push_answered : ∀ g n m h,
    Flight.mk (.pushLocalGraph g n) (.answered (.session m h)) ∈ sys.flights →
      Known sid sys.store (n + 1) g
  answered : ∀ r n g, Flight.mk r (.answered (.session n g)) ∈ sys.flights →
    Known sid sys.store n g

/-- The invariant gives the property. -/
theorem System.Inv.noLostUpdate {sys : System Sub Diag} (h : sys.Inv sid) :
    NoLostUpdate sid sys where
  version_loaded := h.held
  push_seen := by
    intro g n st' hmem hrun
    obtain ⟨s, -, hs, rfl, -⟩ := replace_graph_returns hrun
    obtain ⟨g', hg'⟩ := h.push_sent g s.version hmem
    obtain ⟨t, ht, -, hgraph⟩ := h.seen_known _ _ hg'
    rw [hs, Option.some.injEq] at ht
    subst ht
    exact ⟨s, hs, rfl, by rw [hgraph rfl]; exact hg'⟩
  push_stale := by
    intro g n s hmem hs hnot
    apply replace_graph_stale hs
    rintro rfl
    obtain ⟨g', hg'⟩ := h.push_sent g s.version hmem
    obtain ⟨t, ht, -, hgraph⟩ := h.seen_known _ _ hg'
    rw [hs, Option.some.injEq] at ht
    subst ht
    rw [hgraph rfl] at hnot
    exact hnot hg'

/-! ## The steps keep the invariant -/

/-- The invariant only gains from a larger `seen`, and does not look at the
canvas beyond its version. -/
theorem System.Inv.send {sys : System Sub Diag} (h : sys.Inv sid) {r : Option (Request Sub)}
    (hr : ∀ g n, r = some (.pushLocalGraph g n) → ∃ g', (n, g') ∈ sys.seen) :
    (sys.send r).Inv sid := by
  have hmem : ∀ {f}, f ∈ (sys.send r).flights → f ∈ sys.flights ∨
      ∃ r', r = some r' ∧ f = { request := r', phase := .sent } := by
    intro f hf
    rcases List.mem_append.mp hf with hf | hf
    · exact .inl hf
    · obtain ⟨r', hr', rfl⟩ := List.mem_map.mp hf
      exact .inr ⟨r', Option.mem_toList.mp hr', rfl⟩
  refine ⟨h.live, h.held, h.loaded_seen, h.seen_known, ?_, ?_, ?_, ?_⟩
  · intro g n hf
    rcases hmem hf with hf | ⟨r', hr', heq⟩
    · exact h.push_sent g n hf
    · cases heq
      exact hr g n hr'
  · intro g n hf
    rcases hmem hf with hf | ⟨r', hr', heq⟩
    · exact h.push_served g n hf
    · cases heq
  · intro g n m k hf
    rcases hmem hf with hf | ⟨r', hr', heq⟩
    · exact h.push_answered g n m k hf
    · cases heq
  · intro r n g hf
    rcases hmem hf with hf | ⟨r', hr', heq⟩
    · exact h.answered r n g hf
    · cases heq

/-- A call to the store, by whoever. -/
theorem System.Inv.call {sys : System Sub Diag} (h : sys.Inv sid) (c : Call Sub) :
    System.Inv sid { sys with store := c.after v sys.store } := by
  obtain ⟨s, hs⟩ := h.live
  obtain ⟨s', hs', -, -⟩ := version_next (v := v) (c := c) hs
  exact ⟨⟨s', hs'⟩, h.held, h.loaded_seen, fun n g hg => (h.seen_known n g hg).after c,
    h.push_sent, fun g n hf => (h.push_served g n hf).after c,
    fun g n m k hf => (h.push_answered g n m k hf).after c,
    fun r n g hf => (h.answered r n g hf).after c⟩

/-- The canvas may change as long as the version it holds is kept or dropped. -/
theorem System.Inv.client {sys : System Sub Diag} (h : sys.Inv sid) {c : Client Sub}
    (hc : ∀ n, c.version = some n → sys.client.version = some n) :
    System.Inv sid { sys with client := c } :=
  ⟨h.live, fun n hn => h.held n (hc n hn), h.loaded_seen, h.seen_known, h.push_sent,
    h.push_served, h.push_answered, h.answered⟩

/-- A request under way may be replaced by one that fits the store. -/
theorem System.Inv.set {sys : System Sub Diag} (h : sys.Inv sid) {i : Nat} {f : Flight Sub}
    (hsent : ∀ g n, f ≠ { request := .pushLocalGraph g n, phase := .sent })
    (hserved : ∀ g n, f = { request := .pushLocalGraph g n, phase := .served } →
      Known sid sys.store (n + 1) g)
    (hpush : ∀ g n m k, f = { request := .pushLocalGraph g n, phase := .answered (.session m k) } →
      Known sid sys.store (n + 1) g)
    (hanswered : ∀ r n g, f = { request := r, phase := .answered (.session n g) } →
      Known sid sys.store n g) :
    System.Inv sid { sys with flights := sys.flights.set i f } := by
  refine ⟨h.live, h.held, h.loaded_seen, h.seen_known, ?_, ?_, ?_, ?_⟩
  · intro g n hf
    rcases List.mem_or_eq_of_mem_set hf with hf | rfl
    · exact h.push_sent g n hf
    · exact absurd rfl (hsent g n)
  · intro g n hf
    rcases List.mem_or_eq_of_mem_set hf with hf | heq
    · exact h.push_served g n hf
    · exact hserved g n heq.symm
  · intro g n m k hf
    rcases List.mem_or_eq_of_mem_set hf with hf | heq
    · exact h.push_answered g n m k hf
    · exact hpush g n m k heq.symm
  · intro r n g hf
    rcases List.mem_or_eq_of_mem_set hf with hf | heq
    · exact h.answered r n g hf
    · exact hanswered r n g heq.symm

theorem System.Inv.erase {sys : System Sub Diag} (h : sys.Inv sid) (i : Nat) :
    System.Inv sid { sys with flights := sys.flights.eraseIdx i } :=
  ⟨h.live, h.held, h.loaded_seen, h.seen_known,
    fun g n hf => h.push_sent g n (List.mem_of_mem_eraseIdx hf),
    fun g n hf => h.push_served g n (List.mem_of_mem_eraseIdx hf),
    fun g n m k hf => h.push_answered g n m k (List.mem_of_mem_eraseIdx hf),
    fun r n g hf => h.answered r n g (List.mem_of_mem_eraseIdx hf)⟩

theorem Client.handleSessionEvent_version (sid : String) (c : Client Sub) (event : EventType) :
    (c.handleSessionEvent sid event).1.version = c.version := by
  unfold Client.handleSessionEvent
  split
  · rfl
  · split
    · rfl
    · split
      · dsimp only
        split <;> rfl
      · rfl

theorem Client.handleSessionEvent_request {sid : String} {c : Client Sub} {event : EventType}
    {r : Request Sub} (h : (c.handleSessionEvent sid event).2 = some r) :
    r = .refresh event := by
  unfold Client.handleSessionEvent at h
  split at h
  · cases h
  · split at h
    · cases h
    · split at h
      · cases h
      · cases h
        rfl

theorem Client.refreshed_version (sid : String) (c : Client Sub) :
    (c.refreshed sid).1.version = c.version := by
  unfold Client.refreshed
  cases hq : c.queuedEvent with
  | none => rfl
  | some event => exact Client.handleSessionEvent_version sid _ event

theorem Client.refreshed_request {sid : String} {c : Client Sub} {r : Request Sub}
    (h : (c.refreshed sid).2 = some r) : ∃ event, r = .refresh event := by
  unfold Client.refreshed at h
  cases hq : c.queuedEvent with
  | none =>
      rw [hq] at h
      cases h
  | some event =>
      rw [hq] at h
      exact ⟨event, Client.handleSessionEvent_request h⟩

theorem Client.start_push {c : Client Sub} {a : UserAction Sub} {g : Graph Sub} {n : Int}
    (h : c.start a = some (.pushLocalGraph g n)) : c.version = some n := by
  cases a with
  | pushLocalGraph =>
      simp only [Client.start] at h
      split at h
      · rename_i m _ hm
        cases h
        exact hm
      · cases h
  | join => cases h
  | accept | reject | endChat | applyDirectMutation | revertCheckpoint =>
      simp [Client.start] at h

/-- The version a careful handler sets, or leaves, is that of the graph
last loaded or pushed once it is done. -/
theorem Client.handle_held {c : Client Sub} {loaded : Option Int} {r : Request Sub}
    {response : Response Sub} (hheld : ∀ n, c.version = some n → loaded = some n)
    (hpush : ∀ g e m k, r = .pushLocalGraph g e → response = .session m k → m = e + 1)
    (hreject : ∀ pid m k, r = .reject pid → response = .session m k → loaded = some m)
    (hend : ∀ m k, r = .endChat → response = .session m k → loaded = some m)
    (hrefresh : ∀ event m k, r = .refresh event → response = .session m k →
      c.sessionId = some sid → isGraphEvent event = false → loaded = some m)
    {n : Int} (hn : (c.handle sid r response).version = some n) :
    ((c.loads sid r response).map Prod.fst).or loaded = some n := by
  cases response with
  | stale_version => cases r <;> exact hheld n hn
  | error => cases r <;> exact hheld n hn
  | session m k =>
      cases r with
      | join | accept | applyDirectMutation | revertCheckpoint => exact hn
      | reject pid =>
          cases hn
          exact hreject pid _ k rfl rfl
      | endChat =>
          cases hn
          exact hend _ k rfl rfl
      | pushLocalGraph g e =>
          cases hn
          rw [hpush g e _ k rfl rfl]
          rfl
      -- a refresh takes the version always, and the graph after a graph event
      | refresh event =>
          by_cases hjoined : c.sessionId = some sid
          · cases hevent : isGraphEvent event with
            | true =>
                simp only [Client.handle, hjoined, ne_eq, not_true_eq_false, if_false, hevent,
                  if_true, Client.loadIR] at hn
                simpa [Client.loads, hjoined, hevent] using hn
            | false =>
                simp only [Client.handle, hjoined, ne_eq, not_true_eq_false, if_false, hevent,
                  Bool.false_eq_true, Option.some.injEq] at hn
                subst hn
                simpa [Client.loads, hevent] using hrefresh event _ k rfl rfl hjoined hevent
          · simp only [Client.handle, ne_eq, hjoined, not_false_eq_true, if_true] at hn
            simpa [Client.loads, hjoined] using hheld n hn

/-- Handling a response that was under way, on a careful step. -/
theorem System.Inv.handle {sys : System Sub Diag} (h : sys.Inv sid) {r : Request Sub}
    {response : Response Sub} (hheld : ∀ n, (sys.client.handle sid r response).version = some n →
      ((sys.client.loads sid r response).map Prod.fst).or sys.loaded = some n)
    (hloads : ∀ n g, sys.client.loads sid r response = some (n, g) → Known sid sys.store n g) :
    (sys.handle sid r response).Inv sid := by
  unfold System.handle
  apply System.Inv.send
  · refine ⟨h.live, ?_, ?_, ?_, ?_, h.push_served, h.push_answered, h.answered⟩
    · intro n hn
      apply hheld
      cases r with
      | refresh event => exact (Client.refreshed_version sid _).symm.trans hn
      | join | pushLocalGraph | accept | reject | endChat | applyDirectMutation
      | revertCheckpoint => exact hn
    · intro n hn
      cases hl : sys.client.loads sid r response with
      | none =>
          simp only [hl, Option.map_none, Option.none_or] at hn
          obtain ⟨g, hg⟩ := h.loaded_seen n hn
          exact ⟨g, List.mem_append_right _ hg⟩
      | some p =>
          simp only [hl, Option.map_some, Option.some_or, Option.some.injEq] at hn
          exact ⟨p.2, List.mem_append_left _ (by simp [← hn])⟩
    · intro n g hg
      rcases List.mem_append.mp hg with hg | hg
      · exact hloads n g (Option.mem_toList.mp hg)
      · exact h.seen_known n g hg
    · intro g n hf
      obtain ⟨g', hg'⟩ := h.push_sent g n hf
      exact ⟨g', List.mem_append_right _ hg'⟩
  · intro g n hr
    cases r with
    | refresh event =>
        obtain ⟨event', heq⟩ := Client.refreshed_request hr
        cases heq
    | join | pushLocalGraph | accept | reject | endChat | applyDirectMutation
    | revertCheckpoint => cases hr

theorem System.Inv.receive {sys : System Sub Diag} (h : sys.Inv sid) {i : Nat}
    {r : Request Sub} {response : Response Sub}
    (hi : sys.flights[i]? = some { request := r, phase := .answered response })
    (hc : Careful sid sys (.receive i)) :
    (System.handle sid { sys with flights := sys.flights.eraseIdx i } r response).Inv sid := by
  have hmem := List.mem_of_getElem? hi
  simp only [Careful, hi] at hc
  apply (h.erase i).handle
  · intro n hn
    refine Client.handle_held h.held ?_ ?_ ?_ ?_ hn
    · rintro g e m k rfl rfl
      exact hc
    · rintro pid m k rfl rfl
      exact hc
    · rintro m k rfl rfl
      exact hc
    · rintro event m k rfl rfl
      exact hc
  · intro n g hl
    cases response with
    | stale_version => cases r <;> cases hl
    | error => cases r <;> cases hl
    | session m k =>
        have hknown := h.answered r m k hmem
        cases r with
        | join | accept | applyDirectMutation | revertCheckpoint =>
            cases hl
            exact hknown
        | reject | endChat => cases hl
        | pushLocalGraph g' e =>
            cases hl
            exact h.push_answered g e m k hmem
        | refresh event =>
            simp only [Client.loads] at hl
            split at hl
            · cases hl
              exact hknown
            · cases hl

/-- Serving a request: a push that the store takes leaves its graph under
the next version. -/
theorem System.Inv.serve {sys : System Sub Diag} (h : sys.Inv sid) {i : Nat} {r : Request Sub} :
    System.Inv sid { sys with
      store := match r.call sid with
        | none => sys.store
        | some c => c.after v sys.store
      flights := sys.flights.set i { request := r, phase := r.served v sid sys.store } } := by
  have hphase : ∀ m k, r.served v sid sys.store ≠ .answered (.session m k) := by
    intro m k heq
    unfold Request.served at heq
    split at heq
    · split at heq <;> cases heq
    · split at heq <;> cases heq
  have hsent : r.served v sid sys.store ≠ .sent := by
    intro heq
    unfold Request.served at heq
    split at heq
    · split at heq <;> cases heq
    · split at heq <;> cases heq
  cases hcall : r.call sid with
  | none =>
      apply h.set
      · intro g n heq
        exact hsent (congrArg Flight.phase heq)
      · intro g n heq
        cases congrArg Flight.request heq
        cases hcall
      · intro g n m k heq
        exact absurd (congrArg Flight.phase heq) (hphase m k)
      · intro r' m k heq
        exact absurd (congrArg Flight.phase heq) (hphase m k)
  | some c =>
      apply (h.call c).set
      · intro g n heq
        exact hsent (congrArg Flight.phase heq)
      · -- a push: its flight is for the graph that is now stored
        intro g n heq
        have hr : r = .pushLocalGraph g n := congrArg Flight.request heq
        have hserved := congrArg Flight.phase heq
        subst hr
        cases hcall
        simp only [Request.served, Request.call] at hserved
        cases hrun : (Call.replace_graph sid g n).run v sys.store with
        | mk result st' =>
            rw [hrun] at hserved
            cases result with
            | error e => cases e <;> cases hserved
            | ok u =>
                obtain ⟨s, s', -, -, hs', hversion, hgraph⟩ := replace_graph_returns hrun
                refine ⟨s', ?_, le_of_eq hversion.symm, fun _ => hgraph⟩
                simp only [Call.after, hrun, hs']
      · intro g n m k heq
        exact absurd (congrArg Flight.phase heq) (hphase m k)
      · intro r' m k heq
        exact absurd (congrArg Flight.phase heq) (hphase m k)

/-- A careful step keeps the invariant. -/
theorem System.Inv.step {sys sys' : System Sub Diag} (h : sys.Inv sid) {a : Action Sub}
    (hc : Careful sid sys a) (hstep : sys.step v sid a = some sys') : sys'.Inv sid := by
  cases a with
  | call c =>
      cases hstep
      exact h.call c
  | edit g =>
      cases hstep
      exact h.client fun n hn => hn
  | leave =>
      cases hstep
      exact h.client fun n hn => by cases hn
  | user a =>
      obtain ⟨r, hr, rfl⟩ := Option.map_eq_some_iff.mp hstep
      apply h.send
      intro g n heq
      cases heq
      exact h.loaded_seen n (h.held n (Client.start_push hr))
  | event e =>
      cases hstep
      apply System.Inv.send
      · exact h.client fun n hn => by rwa [Client.handleSessionEvent_version] at hn
      · intro g n heq
        cases Client.handleSessionEvent_request heq
  | serve i =>
      simp only [System.step] at hstep
      split at hstep
      · cases hstep
        exact h.serve
      · cases hstep
  | answer i =>
      simp only [System.step] at hstep
      split at hstep
      · rename_i r s hi hs
        cases hstep
        have hmem := List.mem_of_getElem? hi
        apply h.set
        · intro g n heq
          cases heq
        · intro g n heq
          cases heq
        · intro g n m k heq
          cases heq
          exact h.push_served g n hmem
        · intro r' m k heq
          cases heq
          exact ⟨s, hs, le_refl _, fun _ => rfl⟩
      · cases hstep
  | lose i =>
      obtain ⟨f, -, rfl⟩ := Option.map_eq_some_iff.mp hstep
      apply h.set
      · intro g n heq
        cases congrArg Flight.phase heq
      · intro g n heq
        cases congrArg Flight.phase heq
      · intro g n m k heq
        cases congrArg Flight.phase heq
      · intro r m k heq
        cases congrArg Flight.phase heq
  | receive i =>
      simp only [System.step] at hstep
      split at hstep
      · rename_i r response hi
        cases hstep
        exact h.receive hi hc
      · cases hstep

theorem System.Inv.exec {sys sys' : System Sub Diag} (h : sys.Inv sid) {actions : List (Action Sub)}
    (hc : CarefulRun v sid sys actions) (hexec : sys.exec v sid actions = some sys') :
    sys'.Inv sid := by
  induction actions generalizing sys with
  | nil =>
      cases hexec
      exact h
  | cons a actions ih =>
      simp only [System.exec] at hexec
      split at hexec
      · cases hexec
      · rename_i next hnext
        exact ih (h.step hc.1 hnext) (hc.2 next hnext) hexec

/-! ## Runs -/

/-- In every state a run of careful steps reaches from a canvas without a
session, no update is lost. -/
theorem no_lost_update {st : SessionStore Sub Diag} {s : GraphSession Sub Diag}
    (hs : st.sessions.get? sid = some s) {c : Client Sub} (hc : c.version = none)
    {actions : List (Action Sub)} {sys : System Sub Diag}
    (hcareful : CarefulRun v sid { store := st, client := c } actions)
    (hexec : System.exec v sid { store := st, client := c } actions = some sys) :
    NoLostUpdate sid sys := by
  have hinit : System.Inv sid ({ store := st, client := c } : System Sub Diag) := by
    refine ⟨⟨s, hs⟩, ?_, ?_, ?_, ?_, ?_, ?_, ?_⟩
    · intro n hn
      rw [hc] at hn
      cases hn
    · intro n hn
      cases hn
    · intro n g hg
      cases hg
    · intro g n hf
      cases hf
    · intro g n hf
      cases hf
    · intro g n m k hf
      cases hf
    · intro r n g hf
      cases hf
  exact (hinit.exec hcareful hexec).noLostUpdate

/-! ## Examples -/

def accept_all : Validation Empty Unit := ⟨fun _ => none, fun _ => (), fun _ => some ()⟩

def new_session : SessionStore Empty Unit := { sessions := Dict.empty.set "s" (.new "s" {}) }

/-- The canvas joins and then pushes. -/
def join_then_push : List (Action Empty) :=
  [.user .join, .serve 0, .answer 0, .receive 0, .user .pushLocalGraph]

theorem join_then_push_safe : ∃ sys,
    System.exec accept_all "s" { store := new_session } join_then_push = some sys ∧
      NoLostUpdate "s" sys := by
  have hcareful : CarefulRun accept_all "s" { store := new_session } join_then_push := by
    refine ⟨trivial, fun _ h => ?_⟩
    cases Option.some.inj h
    refine ⟨trivial, fun _ h => ?_⟩
    cases Option.some.inj h
    refine ⟨trivial, fun _ h => ?_⟩
    cases Option.some.inj h
    refine ⟨trivial, fun _ h => ?_⟩
    cases Option.some.inj h
    exact ⟨trivial, fun _ _ => trivial⟩
  exact ⟨_, rfl, no_lost_update (s := .new "s" {})
    (show new_session.sessions.get? "s" = _ from rfl) rfl hcareful rfl⟩

/-- The canvas joins; another client proposes a change and replaces the
graph; the canvas rejects the proposal and then pushes its own graph. -/
def reject_then_push : List (Action Empty) :=
  [.user .join, .serve 0, .answer 0, .receive 0,
    .call (.add_proposal "s" { base_version := 0 } "p"),
    .call (.replace_graph "s" { name := some "other" } 0),
    .user (.reject "p"), .serve 0, .answer 0, .receive 0,
    .user .pushLocalGraph]

/-- The rejection hands the canvas the version of a graph it has not
loaded, and the push of its own graph then replaces that graph. -/
theorem reject_then_push_overwrites : ∃ sys st' s,
    System.exec accept_all "s" { store := new_session } reject_then_push = some sys ∧
      sys.client.version = some 1 ∧ sys.loaded = some 0 ∧
      sys.store.sessions.get? "s" = some s ∧ s.graph.name = some "other" ∧
      (∀ n g, (n, g) ∈ sys.seen → g.name = none) ∧
      SessionStore.replace_graph "s" sys.client.canvas 1 sys.store = (.ok (), st') ∧
      ¬ NoLostUpdate "s" sys := by
  refine ⟨_, _, _, rfl, rfl, rfl, rfl, rfl, ?_, rfl, ?_⟩
  · intro n g hg
    cases List.mem_singleton.mp hg
    rfl
  · intro h
    exact absurd (h.version_loaded 1 rfl) (by decide)

end EmergentFlow
