import Mathlib.Data.List.Induction
import EmergentFlow.Collab.SessionStep

/-!
# Collab — SessionRuns

Runs of the session store: calls of any clients in any order, each atomic,
any of which may raise. `SessionLaw` is the contract of one session over
such a run, and `session_law` proves it for every run on a session that
starts new.
-/

namespace EmergentFlow

variable {Sub Diag : Type}

/-- The store after a call, whether it returned or raised. -/
def Call.after (v : Validation Sub Diag) (st : SessionStore Sub Diag) (c : Call Sub) :
    SessionStore Sub Diag := (c.run v st).2

/-- The call returns. -/
def Call.returns (v : Validation Sub Diag) (st : SessionStore Sub Diag) (c : Call Sub) : Bool :=
  (c.run v st).1.isOk

/-- The store after a list of calls. -/
def run (v : Validation Sub Diag) (st : SessionStore Sub Diag) (calls : List (Call Sub)) :
    SessionStore Sub Diag := calls.foldl (Call.after v) st

/-- The methods that replace the graph of a session. -/
def Call.changes_graph : Call Sub → Bool
  | .replace_graph .. | .accept_proposal .. | .apply_direct_mutation ..
  | .revert_checkpoint .. => true
  | .add_proposal .. | .reject_proposal .. | .subscribe .. | .unsubscribe .. => false

/-- The call replaces the graph of session `sid`. -/
def Call.replaces (v : Validation Sub Diag) (sid : String) (st : SessionStore Sub Diag)
    (c : Call Sub) : Bool :=
  c.changes_graph && c.session_id = sid && c.returns v st

/-- How many calls of a run replace the graph of session `sid`. -/
def replacements (v : Validation Sub Diag) (sid : String) :
    SessionStore Sub Diag → List (Call Sub) → Nat
  | _, [] => 0
  | st, c :: calls =>
      (if c.replaces v sid st then 1 else 0) + replacements v sid (c.after v st) calls

/-- A generated id is not in use yet: neither that of a new proposal nor
that of a new subscriber queue. -/
def Call.Fresh (st : SessionStore Sub Diag) : Call Sub → Prop
  | .add_proposal sid _ pid =>
      ∀ s, st.sessions.get? sid = some s → s.proposals.get? pid = none
  | .subscribe sid q => ∀ qs, st.subscribers.get? sid = some qs → q ∉ qs.map (·.id)
  | _ => True

/-- Every id generated in the run is fresh. -/
def FreshIds (v : Validation Sub Diag) : SessionStore Sub Diag → List (Call Sub) → Prop
  | _, [] => True
  | st, c :: calls => c.Fresh st ∧ FreshIds v (c.after v st) calls

/-- The version an event announces, if it announces a change of the graph. -/
def SessionEvent.version? : SessionEvent → Option Int
  | .graph_replaced _ n | .proposal_accepted _ _ n _ | .graph_changed _ n _ _ _
  | .graph_reverted _ n _ _ _ _ => some n
  | .proposal_added .. | .proposal_rejected .. => none

/-- What has been put into queue `q` of session `sid`, while it is
subscribed. -/
def SessionStore.queue (st : SessionStore Sub Diag) (sid : String) (q : Nat) :
    Option (List SessionEvent) :=
  ((st.subscribers.get? sid).bind (·.find? (·.id = q))).map (·.events)

/-! ## One step -/

section Step

variable {v : Validation Sub Diag} {c : Call Sub} {s s' : GraphSession Sub Diag}
  {event : SessionEvent}

theorem SessionStep.version (h : SessionStep v c s s' event) :
    s'.version = s.version + (if c.changes_graph then 1 else 0) := by
  cases h <;> simp [Call.changes_graph, GraphSession.resolve]

theorem SessionStep.graph (h : SessionStep v c s s' event) (hc : c.changes_graph = false) :
    s'.graph = s.graph := by
  cases h with
  | replaced | accepted | changed | reverted => cases hc
  | proposed | rejected => rfl

theorem SessionStep.event_version (h : SessionStep v c s s' event) :
    event.version? = if c.changes_graph then some (s.version + 1) else none := by
  cases h <;> rfl

theorem GraphSession.resolve_get? (s : GraphSession Sub Diag) (pid pid' : String)
    (status : ProposalStatus) : (s.resolve pid status).proposals.get? pid' =
      if pid = pid' then (s.proposals.get? pid').map fun p => { p with status := status }
      else s.proposals.get? pid' :=
  Dict.get?_modify s.proposals _ _ _

/-- A stored proposal stays, with its mutation, and once resolved with its
status. -/
theorem SessionStep.proposal (h : SessionStep v c s s' event)
    (hfresh : ∀ sid m pid, c = .add_proposal sid m pid → s.proposals.get? pid = none)
    {pid : String} {p : StoredProposal Sub Diag} (hp : s.proposals.get? pid = some p) :
    ∃ p', s'.proposals.get? pid = some p' ∧ p'.mutation = p.mutation ∧
      (p.status ≠ .PENDING → p'.status = p.status) := by
  cases h with
  | replaced | changed | reverted => exact ⟨p, hp, rfl, fun _ => rfl⟩
  | @proposed _ pid' _ _ _ _ =>
      have hne : pid' ≠ pid := by
        rintro rfl
        rw [hfresh _ _ _ rfl] at hp
        cases hp
      exact ⟨p, by rw [Dict.get?_set_ne _ _ hne, hp], rfl, fun _ => rfl⟩
  | @accepted _ pid' _ p' _ _ _ found pending _ _ | @rejected _ pid' p' _ found pending =>
      simp only [GraphSession.resolve_get?]
      by_cases hpid : pid' = pid
      · subst hpid
        rw [hp, Option.some.injEq] at found
        subst found
        simp only [hp, if_true, Option.map_some, Option.some.injEq, exists_eq_left', true_and]
        exact fun hne => absurd pending hne
      · exact ⟨p, by rw [if_neg hpid, hp], rfl, fun _ => rfl⟩

/-- The status of a stored proposal moves by the call that resolves it. -/
theorem SessionStep.moved_by (h : SessionStep v c s s' event)
    (hfresh : ∀ sid m pid, c = .add_proposal sid m pid → s.proposals.get? pid = none)
    {pid : String} {p p' : StoredProposal Sub Diag} (hp : s.proposals.get? pid = some p)
    (hp' : s'.proposals.get? pid = some p') (hne : p'.status ≠ p.status) :
    (∃ cid, c = .accept_proposal c.session_id pid cid ∧ p'.status = .ACCEPTED) ∨
      (c = .reject_proposal c.session_id pid ∧ p'.status = .REJECTED) := by
  cases h with
  | replaced | changed | reverted =>
      rw [hp, Option.some.injEq] at hp'
      exact absurd (congrArg _ hp'.symm) hne
  | @proposed _ pid' _ _ _ _ =>
      have hpid : pid' ≠ pid := by
        rintro rfl
        rw [hfresh _ _ _ rfl] at hp
        cases hp
      rw [Dict.get?_set_ne _ _ hpid, hp, Option.some.injEq] at hp'
      exact absurd (congrArg _ hp'.symm) hne
  | @accepted _ pid' cid _ _ _ _ _ _ _ _ =>
      simp only [GraphSession.resolve_get?, hp] at hp'
      split at hp'
      next hpid =>
        subst hpid
        cases hp'
        exact .inl ⟨cid, rfl, rfl⟩
      next =>
        cases hp'
        exact absurd rfl hne
  | @rejected _ pid' _ _ _ _ =>
      simp only [GraphSession.resolve_get?, hp] at hp'
      split at hp'
      next hpid =>
        subst hpid
        cases hp'
        exact .inr ⟨rfl, rfl⟩
      next =>
        cases hp'
        exact absurd rfl hne

/-- A proposal is accepted by a call that accepts it, or was already. -/
theorem SessionStep.accepted_by (h : SessionStep v c s s' event) {pid : String}
    {p : StoredProposal Sub Diag} (hp : s'.proposals.get? pid = some p)
    (hstatus : p.status = .ACCEPTED) :
    (∃ sid cid, c = .accept_proposal sid pid cid) ∨ s.proposals.get? pid = some p := by
  cases h with
  | replaced | changed | reverted => exact .inr hp
  | @proposed _ pid' _ _ _ _ =>
      simp only [Dict.get?_set] at hp
      split at hp
      · cases hp
        cases hstatus
      · exact .inr hp
  | @accepted sid pid' cid _ _ _ _ _ _ _ _ =>
      simp only [GraphSession.resolve_get?] at hp
      split at hp
      · rename_i hpid
        exact .inl ⟨sid, cid, by rw [hpid]⟩
      · exact .inr hp
  | @rejected _ pid' _ _ found _ =>
      simp only [GraphSession.resolve_get?] at hp
      split at hp
      · obtain ⟨p', -, rfl⟩ := Option.map_eq_some_iff.mp hp
        cases hstatus
      · exact .inr hp

end Step

/-! ## One call -/

section OneCall

variable {v : Validation Sub Diag} {st : SessionStore Sub Diag} {c : Call Sub} {sid : String}

theorem Call.after_of_raises (h : c.returns v st = false) : c.after v st = st := by
  rcases hrun : c.run v st with ⟨_ | u, st'⟩
  · have hatomic := c.atomic v st _ _ hrun
    simp only [Call.after, hrun, hatomic]
  · simp [Call.returns, hrun, Except.isOk, Except.toBool] at h

theorem Call.run_of_returns (h : c.returns v st = true) : c.run v st = (.ok (), c.after v st) := by
  rcases hrun : c.run v st with ⟨_ | u, st'⟩
  · simp [Call.returns, hrun, Except.isOk, Except.toBool] at h
  · simp [Call.after, hrun]

/-- A call leaves session `sid` alone, or returns and steps it. -/
theorem session_next {s : GraphSession Sub Diag} (hs : st.sessions.get? sid = some s) :
    ((c.after v st).sessions.get? sid = some s ∧ c.replaces v sid st = false) ∨
      ∃ s' event, c.session_id = sid ∧ c.returns v st = true ∧
        (c.after v st).sessions.get? sid = some s' ∧ SessionStep v c s s' event := by
  cases hret : c.returns v st with
  | false =>
      left
      rw [Call.after_of_raises hret]
      exact ⟨hs, by simp [Call.replaces, hret]⟩
  | true =>
      rcases Call.run_cases (Call.run_of_returns hret) with
        ⟨t, t', event, hstep, hmoved⟩ | ⟨sid', q, rfl, hst⟩ | ⟨sid', q, rfl, hst⟩
      · by_cases hsid : c.session_id = sid
        · right
          subst hsid
          have heq := hmoved.before
          rw [hs, Option.some.injEq] at heq
          subst heq
          exact ⟨t', event, rfl, rfl, hmoved.after, hstep⟩
        · left
          exact ⟨by rw [hmoved.others sid (Ne.symm hsid), hs], by simp [Call.replaces, hsid]⟩
      · left
        exact ⟨by rw [hst]; exact hs, by simp [Call.replaces, Call.changes_graph]⟩
      · left
        exact ⟨by rw [hst]; exact hs, by simp [Call.replaces, Call.changes_graph]⟩

/-- The version counts the replacements of the graph. -/
theorem version_next {s : GraphSession Sub Diag} (hs : st.sessions.get? sid = some s) :
    ∃ s', (c.after v st).sessions.get? sid = some s' ∧
      s'.version = s.version + (if c.replaces v sid st then 1 else 0) ∧
      (c.replaces v sid st = false → s'.graph = s.graph) := by
  rcases session_next (v := v) (c := c) hs with ⟨hs', hnot⟩ | ⟨s', event, hsid, hret, hs', hstep⟩
  · exact ⟨s, hs', by simp [hnot], fun _ => rfl⟩
  · have hrep : c.replaces v sid st = c.changes_graph := by
      simp [Call.replaces, hsid, hret]
    exact ⟨s', hs', by rw [hrep]; exact hstep.version, fun h => hstep.graph (hrep ▸ h)⟩

theorem find?_eraseP_ne {qs : List Subscriber} {q r : Nat} (h : r ≠ q) :
    (qs.eraseP (·.id = r)).find? (·.id = q) = qs.find? (·.id = q) := by
  induction qs with
  | nil => rfl
  | cons a qs ih =>
      by_cases ha : a.id = r
      · have hq : a.id ≠ q := ha ▸ h
        simp [ha, h]
      · simp [ha, List.find?_cons, ih]

theorem find?_map_put (qs : List Subscriber) (q : Nat) (event : SessionEvent) :
    (qs.map (·.put event)).find? (·.id = q) = (qs.find? (·.id = q)).map (·.put event) := by
  rw [List.find?_map]
  rfl

theorem SessionStore.queue_eq_some {q : Nat} {events : List SessionEvent} :
    st.queue sid q = some events ↔ ∃ qs a, st.subscribers.get? sid = some qs ∧
      qs.find? (·.id = q) = some a ∧ a.events = events := by
  simp only [SessionStore.queue, Option.map_eq_some_iff, Option.bind_eq_some_iff]
  constructor
  · rintro ⟨a, ⟨qs, hqs, ha⟩, hevents⟩
    exact ⟨qs, a, hqs, ha, hevents⟩
  · rintro ⟨qs, a, hqs, ha, hevents⟩
    exact ⟨a, ⟨qs, hqs, ha⟩, hevents⟩

/-- A live queue keeps what it holds, and a step of its session appends one
event, which announces the new version if the step replaces the graph. -/
theorem queue_next {q : Nat} {events : List SessionEvent}
    (hq : st.queue sid q = some events) (hfresh : c.Fresh st) (hun : c ≠ .unsubscribe sid q) :
    ((c.after v st).queue sid q = some events ∧ c.replaces v sid st = false) ∨
      ∃ s event, st.sessions.get? sid = some s ∧
        event.version? = (if c.replaces v sid st then some (s.version + 1) else none) ∧
        (c.after v st).queue sid q = some (events ++ [event]) := by
  obtain ⟨qs, a, hqs, ha, rfl⟩ := SessionStore.queue_eq_some.mp hq
  cases hret : c.returns v st with
  | false =>
      left
      rw [Call.after_of_raises hret]
      exact ⟨hq, by simp [Call.replaces, hret]⟩
  | true =>
      rcases Call.run_cases (Call.run_of_returns hret) with
        ⟨t, t', event, hstep, hmoved⟩ | ⟨sid', r, rfl, hst⟩ | ⟨sid', r, rfl, hst⟩
      · -- a call to this session puts its event in every queue that is subscribed
        by_cases hsid : c.session_id = sid
        · right
          subst hsid
          refine ⟨t, event, hmoved.before, ?_, ?_⟩
          · rw [hstep.event_version]
            simp [Call.replaces, hret]
          · rw [SessionStore.queue_eq_some]
            refine ⟨qs.map (·.put event), a.put event, ?_, ?_, rfl⟩
            · rw [hmoved.published, Dict.get?_modify, if_pos rfl, hqs, Option.map_some]
            · rw [find?_map_put, ha, Option.map_some]
        · left
          refine ⟨?_, by simp [Call.replaces, hsid]⟩
          rw [SessionStore.queue, hmoved.published, Dict.get?_modify, if_neg hsid]
          exact hq
      · left
        refine ⟨?_, by simp [Call.replaces, Call.changes_graph]⟩
        rw [hst, SessionStore.queue_eq_some]
        by_cases hsid : sid' = sid
        · subst hsid
          refine ⟨qs ++ [{ id := r }], a, ?_, ?_, rfl⟩
          · simp [hqs]
          · rw [List.find?_append, ha, Option.some_or]
        · exact ⟨qs, a, by simp [Dict.get?_set_ne _ _ hsid, hqs], ha, rfl⟩
      · left
        refine ⟨?_, by simp [Call.replaces, Call.changes_graph]⟩
        rw [hst, SessionStore.queue_eq_some]
        by_cases hsid : sid' = sid
        · subst hsid
          have hne : r ≠ q := by
            rintro rfl
            exact hun rfl
          refine ⟨qs.eraseP (·.id = r), a, ?_, ?_, rfl⟩
          · rw [Dict.get?_modify, if_pos rfl, hqs, Option.map_some]
          · rw [find?_eraseP_ne hne, ha]
        · exact ⟨qs, a, by rw [Dict.get?_modify, if_neg hsid, hqs], ha, rfl⟩

end OneCall

/-! ## Runs -/

section Runs

variable {v : Validation Sub Diag} {st : SessionStore Sub Diag} {sid : String}

theorem run_append (l l' : List (Call Sub)) : run v st (l ++ l') = run v (run v st l) l' :=
  List.foldl_append

theorem run_concat (l : List (Call Sub)) (c : Call Sub) :
    run v st (l ++ [c]) = c.after v (run v st l) := run_append l [c]

theorem replacements_append (l l' : List (Call Sub)) :
    replacements v sid st (l ++ l') =
      replacements v sid st l + replacements v sid (run v st l) l' := by
  induction l generalizing st with
  | nil => simp [replacements, run]
  | cons c l ih =>
      rw [List.cons_append, replacements, replacements, ih, Nat.add_assoc]
      rfl

theorem freshIds_append (l l' : List (Call Sub)) :
    FreshIds v st (l ++ l') ↔ FreshIds v st l ∧ FreshIds v (run v st l) l' := by
  induction l generalizing st with
  | nil => simp [FreshIds, run]
  | cons c l ih =>
      rw [List.cons_append, FreshIds, FreshIds, ih, and_assoc]
      rfl

/-- Over a run the version grows by the number of replacements, and without
one the graph stays. -/
theorem session_run {s : GraphSession Sub Diag} (hs : st.sessions.get? sid = some s)
    (l : List (Call Sub)) : ∃ s', (run v st l).sessions.get? sid = some s' ∧
      s'.version = s.version + replacements v sid st l ∧
      (replacements v sid st l = 0 → s'.graph = s.graph) := by
  induction l generalizing st s with
  | nil => exact ⟨s, hs, by simp [replacements], fun _ => rfl⟩
  | cons c l ih =>
      obtain ⟨t, ht, hversion, hgraph⟩ := version_next (v := v) (c := c) hs
      obtain ⟨s', hs', hversion', hgraph'⟩ := ih ht
      refine ⟨s', hs', ?_, ?_⟩
      · rw [hversion', hversion, replacements]
        push_cast
        omega
      · intro h
        rw [replacements, Nat.add_eq_zero_iff] at h
        rw [hgraph' h.2]
        apply hgraph
        by_contra hc
        simp [hc] at h

/-- Over a run a stored proposal stays, with its mutation, and once
resolved with its status. -/
theorem proposal_run {s : GraphSession Sub Diag} (hs : st.sessions.get? sid = some s)
    {l : List (Call Sub)} (hfresh : FreshIds v st l) {pid : String}
    {p : StoredProposal Sub Diag} (hp : s.proposals.get? pid = some p) :
    ∃ s' p', (run v st l).sessions.get? sid = some s' ∧ s'.proposals.get? pid = some p' ∧
      p'.mutation = p.mutation ∧ (p.status ≠ .PENDING → p'.status = p.status) := by
  induction l generalizing st s p with
  | nil => exact ⟨s, p, hs, hp, rfl, fun _ => rfl⟩
  | cons c l ih =>
      rcases session_next (v := v) (c := c) hs with ⟨hs', -⟩ | ⟨t, event, hsid, -, ht, hstep⟩
      · exact ih hs' hfresh.2 hp
      · obtain ⟨p', hp', hmutation, hstatus⟩ := hstep.proposal (by
          rintro sid' m pid rfl
          rw [Call.session_id] at hsid
          subst hsid
          exact hfresh.1 s hs) hp
        obtain ⟨s'', p'', hs'', hp'', hmutation', hstatus'⟩ := ih ht hfresh.2 hp'
        refine ⟨s'', p'', hs'', hp'', hmutation'.trans hmutation, ?_⟩
        intro h
        rw [hstatus' (by rw [hstatus h]; exact h), hstatus h]

/-- An accepted proposal was accepted by a call of the run. -/
theorem accepted_run {s s' : GraphSession Sub Diag} (hs : st.sessions.get? sid = some s)
    (hnone : ∀ pid p, s.proposals.get? pid = some p → p.status ≠ .ACCEPTED)
    {l : List (Call Sub)} (hs' : (run v st l).sessions.get? sid = some s') {pid : String}
    {p : StoredProposal Sub Diag} (hp : s'.proposals.get? pid = some p)
    (hstatus : p.status = .ACCEPTED) :
    ∃ pre cid post, l = pre ++ .accept_proposal sid pid cid :: post ∧
      (Call.accept_proposal sid pid cid).returns v (run v st pre) = true := by
  induction l using List.reverseRecOn generalizing s' p with
  | nil =>
      rw [show run v st [] = st from rfl, hs, Option.some.injEq] at hs'
      subst hs'
      exact absurd hstatus (hnone pid p hp)
  | append_singleton l c ih =>
      obtain ⟨t, ht, -, -⟩ := session_run (v := v) hs l
      -- a proposal that was accepted before owes it to an earlier call
      have hback : ∀ {p}, t.proposals.get? pid = some p → p.status = .ACCEPTED →
          ∃ pre cid post, l ++ [c] = pre ++ .accept_proposal sid pid cid :: post ∧
            (Call.accept_proposal sid pid cid).returns v (run v st pre) = true := by
        intro p hp hstatus
        obtain ⟨pre, cid, post, rfl, hret⟩ := ih ht hp hstatus
        exact ⟨pre, cid, post ++ [c], by simp, hret⟩
      rw [run_concat] at hs'
      rcases session_next (v := v) (c := c) ht with ⟨hsame, -⟩ | ⟨t', event, hsid, hret, ht', hstep⟩
      · rw [hsame, Option.some.injEq] at hs'
        subst hs'
        exact hback hp hstatus
      · rw [ht', Option.some.injEq] at hs'
        subst hs'
        rcases hstep.accepted_by hp hstatus with ⟨sid', cid, rfl⟩ | hp
        · rw [Call.session_id] at hsid
          subst hsid
          exact ⟨l, cid, [], rfl, hret⟩
        · exact hback hp hstatus

/-- While a queue stays subscribed it collects the graph changes with
consecutive versions. -/
theorem queue_run {s : GraphSession Sub Diag} {q : Nat} {events : List SessionEvent}
    (hs : st.sessions.get? sid = some s) (hq : st.queue sid q = some events)
    {l : List (Call Sub)} (hfresh : FreshIds v st l) (hun : .unsubscribe sid q ∉ l) :
    ∃ more, (run v st l).queue sid q = some (events ++ more) ∧
      more.filterMap (·.version?) =
        (List.range (replacements v sid st l)).map fun (k : Nat) => s.version + 1 + k := by
  induction l using List.reverseRecOn with
  | nil => exact ⟨[], by simpa [run] using hq, rfl⟩
  | append_singleton l c ih =>
      obtain ⟨hfresh, hfresh_c, -⟩ := (freshIds_append l [c]).mp hfresh
      rw [List.mem_append, not_or, List.mem_singleton] at hun
      obtain ⟨more, hmore, hversions⟩ := ih hfresh hun.1
      obtain ⟨t, ht, hversion, -⟩ := session_run (v := v) hs l
      rw [run_concat, replacements_append]
      rcases queue_next (v := v) hmore hfresh_c (Ne.symm hun.2) with
        ⟨hsame, hnot⟩ | ⟨t', event, ht', hevent, happend⟩
      · refine ⟨more, hsame, ?_⟩
        simp [hversions, replacements, hnot]
      · rw [ht, Option.some.injEq] at ht'
        subst ht'
        refine ⟨more ++ [event], by rw [happend, List.append_assoc], ?_⟩
        rw [List.filterMap_append, hversions]
        -- only the event of a replaced graph carries a version
        cases hrep : c.replaces v sid (run v st l) with
        | false => simp [hevent, hrep, replacements]
        | true =>
            have hone : replacements v sid (run v st l) [c] = 1 := by
              simp [replacements, hrep]
            rw [hone, List.range_succ, List.map_append]
            simp only [hrep, if_true] at hevent
            simp only [List.filterMap_cons, hevent, List.filterMap_nil, List.map_cons,
              List.map_nil, List.append_cancel_left_eq, List.cons.injEq, and_true]
            rw [hversion]
            omega

end Runs

/-! ## The law of a session -/

/-- The session `sid` after a list of calls. -/
def sessionAfter (v : Validation Sub Diag) (st : SessionStore Sub Diag) (sid : String)
    (calls : List (Call Sub)) : Option (GraphSession Sub Diag) :=
  (run v st calls).sessions.get? sid

/-- The contract of session `sid` over the run `calls` from `st`. -/
structure SessionLaw (v : Validation Sub Diag) (st : SessionStore Sub Diag) (sid : String)
    (calls : List (Call Sub)) : Prop where
  /-- At every point the version is the number of replacements so far. -/
  version_counts : ∀ pre post, calls = pre ++ post →
    ∃ s, sessionAfter v st sid pre = some s ∧ s.version = replacements v sid st pre
  /-- A call that does not replace the graph changes neither it nor the
  version; one that does bumps the version by one. -/
  together : ∀ pre c post, calls = pre ++ c :: post → ∃ s s',
    sessionAfter v st sid pre = some s ∧ sessionAfter v st sid (pre ++ [c]) = some s' ∧
      if c.replaces v sid (run v st pre) then s'.version = s.version + 1
      else s'.version = s.version ∧ s'.graph = s.graph
  /-- A stored proposal stays, and a resolved one keeps its status. -/
  resolved_once : ∀ pre mid post, calls = pre ++ mid ++ post → ∀ s pid p,
    sessionAfter v st sid pre = some s → s.proposals.get? pid = some p → ∃ s' p',
      sessionAfter v st sid (pre ++ mid) = some s' ∧ s'.proposals.get? pid = some p' ∧
        p'.mutation = p.mutation ∧ (p.status ≠ .PENDING → p'.status = p.status)
  /-- An accepted proposal was pending, and its mutation was applied to the
  graph at its base version. -/
  accepted : ∀ pre pid cid post, calls = pre ++ .accept_proposal sid pid cid :: post →
    (Call.accept_proposal sid pid cid).returns v (run v st pre) = true → ∃ s s' p,
      sessionAfter v st sid pre = some s ∧
        sessionAfter v st sid (pre ++ [.accept_proposal sid pid cid]) = some s' ∧
        s.proposals.get? pid = some p ∧ p.status = .PENDING ∧
        p.mutation.base_version = s.version ∧
        apply_mutation v.registry s.graph p.mutation = .ok s'.graph ∧
        s'.proposals.get? pid = some { p with status := .ACCEPTED }
  /-- A rejected proposal was pending. -/
  rejected : ∀ pre pid post, calls = pre ++ .reject_proposal sid pid :: post →
    (Call.reject_proposal sid pid).returns v (run v st pre) = true → ∃ s s' p,
      sessionAfter v st sid pre = some s ∧
        sessionAfter v st sid (pre ++ [.reject_proposal sid pid]) = some s' ∧
        s.proposals.get? pid = some p ∧ p.status = .PENDING ∧
        s'.proposals.get? pid = some { p with status := .REJECTED }
  /-- A new proposal is stored as it was made, pending, and was made on the
  current version. -/
  proposed : ∀ pre m pid post, calls = pre ++ .add_proposal sid m pid :: post →
    (Call.add_proposal sid m pid).returns v (run v st pre) = true → ∃ s s' p,
      sessionAfter v st sid pre = some s ∧
        sessionAfter v st sid (pre ++ [.add_proposal sid m pid]) = some s' ∧
        m.base_version = s.version ∧ s'.proposals.get? pid = some p ∧
        p.mutation = m ∧ p.status = .PENDING
  /-- Only the call that resolves a proposal moves its status. -/
  moved_by_call : ∀ pre c post, calls = pre ++ c :: post → ∀ s s' pid p p',
    sessionAfter v st sid pre = some s → sessionAfter v st sid (pre ++ [c]) = some s' →
    s.proposals.get? pid = some p → s'.proposals.get? pid = some p' → p'.status ≠ p.status →
      (∃ cid, c = .accept_proposal sid pid cid ∧ p'.status = .ACCEPTED) ∨
        (c = .reject_proposal sid pid ∧ p'.status = .REJECTED)
  /-- A proposal is accepted by such a call only. -/
  accepted_by_call : ∀ pre post, calls = pre ++ post → ∀ s pid p,
    sessionAfter v st sid pre = some s → s.proposals.get? pid = some p →
      p.status = .ACCEPTED → ∃ before cid after,
        pre = before ++ .accept_proposal sid pid cid :: after ∧
          (Call.accept_proposal sid pid cid).returns v (run v st before) = true
  /-- A direct edit was applied to the graph at its base version. -/
  direct : ∀ pre m author description cid post,
    calls = pre ++ .apply_direct_mutation sid m author description cid :: post →
    (Call.apply_direct_mutation sid m author description cid).returns v (run v st pre) = true →
      ∃ s s', sessionAfter v st sid pre = some s ∧
        sessionAfter v st sid (pre ++ [.apply_direct_mutation sid m author description cid])
          = some s' ∧
        m.base_version = s.version ∧ apply_mutation v.registry s.graph m = .ok s'.graph
  /-- A replacement that met the expected version puts in its graph. -/
  replaced : ∀ pre g n post, calls = pre ++ .replace_graph sid g n :: post →
    (Call.replace_graph sid g n).returns v (run v st pre) = true → ∃ s s',
      sessionAfter v st sid pre = some s ∧
        sessionAfter v st sid (pre ++ [.replace_graph sid g n]) = some s' ∧
        n = s.version ∧ s'.graph = g
  /-- A revert puts in the graph the checkpoint holds. -/
  reverted : ∀ pre cid rid post, calls = pre ++ .revert_checkpoint sid cid rid :: post →
    (Call.revert_checkpoint sid cid rid : Call Sub).returns v (run v st pre) = true →
      ∃ s s' c, sessionAfter v st sid pre = some s ∧
        sessionAfter v st sid (pre ++ [.revert_checkpoint sid cid rid]) = some s' ∧
        s.checkpoints.get? cid = some c ∧ s'.graph = c.previous_graph
  /-- One version has one graph. -/
  graph_of_version : ∀ pre mid post, calls = pre ++ mid ++ post → ∀ s s',
    sessionAfter v st sid pre = some s → sessionAfter v st sid (pre ++ mid) = some s' →
      s'.version = s.version → s'.graph = s.graph
  /-- Of two calls that take effect, the later one met a later version. -/
  one_per_version : ∀ pre c mid d post, calls = pre ++ c :: mid ++ d :: post →
    c.replaces v sid (run v st pre) = true →
    d.replaces v sid (run v st (pre ++ c :: mid)) = true → ∃ s s',
      sessionAfter v st sid pre = some s ∧ sessionAfter v st sid (pre ++ c :: mid) = some s' ∧
        s.version < s'.version
  /-- A call that raises leaves the store as it was. -/
  failed : ∀ pre c post, calls = pre ++ c :: post → c.returns v (run v st pre) = false →
    run v st (pre ++ [c]) = run v st pre
  /-- A subscriber sees the graph changes with consecutive versions. -/
  watched : ∀ pre q mid post, calls = pre ++ .subscribe sid q :: mid ++ post →
    (Call.subscribe sid q : Call Sub).returns v (run v st pre) = true →
    .unsubscribe sid q ∉ mid → ∃ s s' events n,
      sessionAfter v st sid pre = some s ∧
        sessionAfter v st sid (pre ++ .subscribe sid q :: mid) = some s' ∧
        (run v st (pre ++ .subscribe sid q :: mid)).queue sid q = some events ∧
        s'.version = s.version + (n : Nat) ∧
        events.filterMap (·.version?) = (List.range n).map fun (k : Nat) => s.version + 1 + k

theorem steps_of_returns {v : Validation Sub Diag} {st : SessionStore Sub Diag} {c : Call Sub}
    (hret : c.returns v st = true) (hsub : ∀ sid q, c ≠ .subscribe sid q)
    (hunsub : ∀ sid q, c ≠ .unsubscribe sid q) : Steps v c st (c.after v st) := by
  rcases Call.run_cases (Call.run_of_returns hret) with h | ⟨sid, q, h, -⟩ | ⟨sid, q, h, -⟩
  · exact h
  · exact absurd h (hsub sid q)
  · exact absurd h (hunsub sid q)

/-- A successful subscription starts with an empty queue. -/
theorem subscribe_queue {v : Validation Sub Diag} {st : SessionStore Sub Diag} {sid : String}
    {q : Nat} (hret : (Call.subscribe sid q : Call Sub).returns v st = true)
    (hfresh : (Call.subscribe sid q : Call Sub).Fresh st) :
    ((Call.subscribe sid q : Call Sub).after v st).queue sid q = some [] ∧
      ((Call.subscribe sid q : Call Sub).after v st).sessions = st.sessions := by
  rcases Call.run_cases (Call.run_of_returns hret) with
    ⟨_, _, _, hstep, -⟩ | ⟨sid', q', h, hst⟩ | ⟨sid', q', h, -⟩
  · cases hstep
  · cases h
    rw [hst]
    refine ⟨?_, rfl⟩
    rw [SessionStore.queue_eq_some]
    refine ⟨_, { id := q }, Dict.get?_set_self _ _ _, ?_, rfl⟩
    rw [List.find?_append]
    have hnone : ((st.subscribers.get? sid).getD []).find? (·.id = q) = none := by
      rw [List.find?_eq_none]
      intro a ha hid
      cases hqs : st.subscribers.get? sid with
      | none => simp [hqs] at ha
      | some qs =>
          rw [hqs, Option.getD_some] at ha
          rw [decide_eq_true_eq] at hid
          exact hfresh qs hqs (List.mem_map.mpr ⟨a, ha, hid⟩)
    rw [hnone]
    simp
  · cases h

/-- Every run of calls on a session that starts new obeys the law, provided
generated ids are fresh. -/
theorem session_law (v : Validation Sub Diag) {st : SessionStore Sub Diag} {sid : String}
    {g : Graph Sub} (hs₀ : st.sessions.get? sid = some (.new sid g))
    (calls : List (Call Sub)) (hfresh : FreshIds v st calls) : SessionLaw v st sid calls where
  version_counts := by
    intro pre post h
    obtain ⟨s, hs, hcount, -⟩ := session_run (v := v) hs₀ pre
    exact ⟨s, hs, by rw [hcount, GraphSession.new, Int.zero_add]⟩
  together := by
    intro pre c post h
    obtain ⟨s, hs, -, -⟩ := session_run (v := v) hs₀ pre
    obtain ⟨s', hs', hnext, hgraph⟩ := version_next (v := v) (c := c) hs
    refine ⟨s, s', hs, by rw [sessionAfter, run_concat]; exact hs', ?_⟩
    cases hrep : c.replaces v sid (run v st pre) with
    | false => exact ⟨by simpa [hrep] using hnext, hgraph hrep⟩
    | true => simpa [hrep] using hnext
  resolved_once := by
    intro pre mid post h s pid p hs hp
    rw [h, List.append_assoc, freshIds_append, freshIds_append] at hfresh
    obtain ⟨s', p', hs', hp', hmutation, hstatus⟩ := proposal_run hs hfresh.2.1 hp
    exact ⟨s', p', by rw [sessionAfter, run_append]; exact hs', hp', hmutation, hstatus⟩
  accepted := by
    intro pre pid cid post h hret
    obtain ⟨s, s', event, hstep, hmoved⟩ := steps_of_returns hret nofun nofun
    cases hstep with
    | @accepted _ _ _ p g c _ found pending base applied =>
        refine ⟨s, _, p, hmoved.before, by rw [sessionAfter, run_concat]; exact hmoved.after,
          found, pending, base, applied, ?_⟩
        simp [GraphSession.resolve_get?, found]
  rejected := by
    intro pre pid post h hret
    obtain ⟨s, s', event, hstep, hmoved⟩ := steps_of_returns hret nofun nofun
    cases hstep with
    | @rejected _ _ p _ found pending =>
        refine ⟨s, _, p, hmoved.before, by rw [sessionAfter, run_concat]; exact hmoved.after,
          found, pending, ?_⟩
        simp [GraphSession.resolve_get?, found]
  proposed := by
    intro pre m pid post h hret
    obtain ⟨s, s', event, hstep, hmoved⟩ := steps_of_returns hret nofun nofun
    cases hstep with
    | proposed base =>
        exact ⟨s, _, _, hmoved.before, by rw [sessionAfter, run_concat]; exact hmoved.after,
          base, Dict.get?_set_self _ _ _, rfl, rfl⟩
  moved_by_call := by
    intro pre c post h s s' pid p p' hs hs' hp hp' hne
    rw [sessionAfter, run_concat] at hs'
    rw [h, freshIds_append] at hfresh
    rcases session_next (v := v) (c := c) hs with ⟨hsame, -⟩ | ⟨t, event, rfl, -, ht, hstep⟩
    · rw [hsame, Option.some.injEq] at hs'
      subst hs'
      rw [hp, Option.some.injEq] at hp'
      exact absurd (congrArg _ hp'.symm) hne
    · rw [ht, Option.some.injEq] at hs'
      subst hs'
      refine hstep.moved_by ?_ hp hp' hne
      rintro sid m pid rfl
      exact hfresh.2.1 s hs
  accepted_by_call := by
    intro pre post h s pid p hs hp hstatus
    apply accepted_run hs₀ _ hs hp hstatus
    intro pid p hp
    cases hp
  direct := by
    intro pre m author description cid post h hret
    obtain ⟨s, s', event, hstep, hmoved⟩ := steps_of_returns hret nofun nofun
    cases hstep with
    | changed base applied =>
        exact ⟨s, _, hmoved.before, by rw [sessionAfter, run_concat]; exact hmoved.after,
          base, applied⟩
  replaced := by
    intro pre g n post h hret
    obtain ⟨s, s', event, hstep, hmoved⟩ := steps_of_returns hret nofun nofun
    cases hstep with
    | replaced =>
        exact ⟨s, _, hmoved.before, by rw [sessionAfter, run_concat]; exact hmoved.after,
          rfl, rfl⟩
  reverted := by
    intro pre cid rid post h hret
    obtain ⟨s, s', event, hstep, hmoved⟩ := steps_of_returns hret nofun nofun
    cases hstep with
    | @reverted _ _ _ c _ _ found =>
        exact ⟨s, _, c, hmoved.before, by rw [sessionAfter, run_concat]; exact hmoved.after,
          found, rfl⟩
  graph_of_version := by
    intro pre mid post h s s' hs hs' heq
    obtain ⟨t, ht, hcount, hgraph⟩ := session_run (v := v) hs mid
    rw [sessionAfter, run_append, ht, Option.some.injEq] at hs'
    subst hs'
    exact hgraph (by omega)
  one_per_version := by
    intro pre c mid d post h hc hd
    obtain ⟨s, hs, -, -⟩ := session_run (v := v) hs₀ pre
    obtain ⟨s', hs', hcount, -⟩ := session_run (v := v) hs (c :: mid)
    refine ⟨s, s', hs, by rw [sessionAfter, run_append]; exact hs', ?_⟩
    rw [hcount, replacements, if_pos hc]
    push_cast
    omega
  failed := by
    intro pre c post h hret
    rw [run_concat, Call.after_of_raises hret]
  watched := by
    intro pre q mid post h hret hun
    rw [h, List.append_assoc, freshIds_append, List.cons_append] at hfresh
    obtain ⟨-, hfresh_q, hfresh_mid⟩ := hfresh
    obtain ⟨s, hs, -, -⟩ := session_run (v := v) hs₀ pre
    obtain ⟨hqueue, hsessions⟩ := subscribe_queue hret hfresh_q
    have hs_q : ((Call.subscribe sid q : Call Sub).after v (run v st pre)).sessions.get? sid
        = some s := by
      rw [hsessions]
      exact hs
    obtain ⟨more, hmore, hversions⟩ :=
      queue_run hs_q hqueue ((freshIds_append mid post).mp hfresh_mid).1 hun
    obtain ⟨s', hs', hcount, -⟩ := session_run (v := v) hs_q mid
    refine ⟨s, s', more, _, hs, ?_, ?_, hcount, hversions⟩
    · rw [sessionAfter, run_append]
      exact hs'
    · rw [List.nil_append] at hmore
      rw [run_append]
      exact hmore

/-- A run of one watched session: a proposal is made and accepted, then a
replacement that expects the old version fails. -/
def watched_run : List (Call Empty) :=
  [.subscribe "s" 0, .add_proposal "s" { base_version := 0 } "p",
    .accept_proposal "s" "p" "c", .replace_graph "s" {} 0]

theorem watched_run_law :
    SessionLaw (⟨fun _ => none, fun _ => (), fun _ => some ()⟩ : Validation Empty Unit)
      { sessions := Dict.empty.set "s" (.new "s" {}) } "s" watched_run := by
  apply session_law (g := {}) _ rfl
  refine ⟨?_, ?_, trivial, trivial, trivial⟩
  · intro qs hqs
    cases hqs
  · intro s hs
    cases hs
    rfl

end EmergentFlow
