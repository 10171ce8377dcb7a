import EmergentFlow.Collab.SessionRuns
import EmergentFlow.Ir.RoundTrip

/-!
# Collab — Checkpoints

The history the checkpoints of a session record. A checkpoint is faithful
when the graph it holds stood at its base version and its mutation leads
from there to the graph of the next version, so that the checkpoint can be
inverted in turn. A revert records the inverse of an old edit next to the
current graph, and the two fit together only if nothing that the edit left
alone has changed since: `Call.Reversible` is that condition.
-/

namespace EmergentFlow

variable {Sub Diag : Type}

/-! ## What a step records -/

/-- The step from `s` to `s'` stores `k` under `id`, a checkpoint of the
mutation `m` with the graph and version before the step. -/
structure Records (id : String) (m : GraphMutation Sub) (s s' : GraphSession Sub Diag)
    (k : Checkpoint Sub) : Prop where
  stored : s'.checkpoints = s.checkpoints.set id k
  mutation : k.mutation = m
  previous_graph : k.previous_graph = s.graph
  base_version : k.base_version = s.version
  resulting_version : k.resulting_version = s.version + 1
  version : s'.version = s.version + 1

/-- What a call does to the checkpoints of its session. -/
inductive CheckpointStep (v : Validation Sub Diag) (s s' : GraphSession Sub Diag) :
    Call Sub → Prop where
  | kept {c : Call Sub} (quiet : c.changes_graph = false)
      (checkpoints : s'.checkpoints = s.checkpoints) (graph : s'.graph = s.graph) :
      CheckpointStep v s s' c
  | replaced {sid : String} {n : Int} (checkpoints : s'.checkpoints = s.checkpoints) :
      CheckpointStep v s s' (.replace_graph sid s'.graph n)
  | accepted {sid pid cid : String} {p : StoredProposal Sub Diag} {k : Checkpoint Sub}
      (found : s.proposals.get? pid = some p)
      (applied : apply_mutation v.registry s.graph p.mutation = .ok s'.graph)
      (records : Records cid p.mutation s s' k) :
      CheckpointStep v s s' (.accept_proposal sid pid cid)
  | changed {sid cid : String} {m : GraphMutation Sub} {author description : TextArg}
      {k : Checkpoint Sub} (applied : apply_mutation v.registry s.graph m = .ok s'.graph)
      (records : Records cid m s s' k) :
      CheckpointStep v s s' (.apply_direct_mutation sid m author description cid)
  | reverted {sid cid rid : String} {old k : Checkpoint Sub} {inverse : GraphMutation Sub}
      (found : s.checkpoints.get? cid = some old)
      (inverted : invert_mutation old.previous_graph old.mutation = .ok inverse)
      (graph : s'.graph = old.previous_graph) (records : Records rid inverse s s' k) :
      CheckpointStep v s s' (.revert_checkpoint sid cid rid)

section Step

open Transaction

variable {v : Validation Sub Diag} {st st' : SessionStore Sub Diag}

theorem Checkpoint.new_eq_ok {id : String} {kind : CheckpointKind} {author description : TextArg}
    {base resulting : Int} {m : GraphMutation Sub} {g : Graph Sub} {k : Checkpoint Sub}
    (h : Checkpoint.new id kind author description base m g resulting = .ok k) :
    k.mutation = m ∧ k.previous_graph = g ∧ k.base_version = base ∧
      k.resulting_version = resulting := by
  unfold Checkpoint.new at h
  split at h
  · cases h
    exact ⟨rfl, rfl, rfl, rfl⟩
  · cases h

theorem accept_proposal_records {sid pid cid : String}
    (h : SessionStore.accept_proposal v sid pid cid st = (.ok (), st')) :
    ∃ s s', st.sessions.get? sid = some s ∧ st'.sessions.get? sid = some s' ∧
      CheckpointStep v s s' (.accept_proposal sid pid cid) := by
  simp only [SessionStore.accept_proposal, SessionStore.assign, SessionStore.publish, bind_eq_ok,
    SessionStore.get_eq_ok, check_eq_ok, lift_eq_ok, write_eq_ok, decide_eq_true_eq,
    GraphSession.get_proposal_eq_ok, Checks.mapError_eq_ok] at h
  obtain ⟨s, _, ⟨hs, rfl⟩, p, _, ⟨hp, rfl⟩, _, _, ⟨-, rfl⟩, _, _, ⟨-, rfl⟩, g, _, ⟨hg, rfl⟩,
    _, _, rfl, _, _, rfl, _, _, rfl, k, _, ⟨hk, rfl⟩, _, _, rfl, rfl⟩ := h
  obtain ⟨hm, hprevious, hbase, hresulting⟩ := Checkpoint.new_eq_ok hk
  refine ⟨s, { s with
    graph := g, version := s.version + 1, proposals := (s.resolve pid .ACCEPTED).proposals
    checkpoints := s.checkpoints.set cid k }, hs, ?_, .accepted hp hg
      ⟨rfl, hm, hprevious, hbase, hresulting, rfl⟩⟩
  simp [Dict.get?_modify, hs, GraphSession.resolve]

theorem apply_direct_mutation_records {sid cid : String} {m : GraphMutation Sub}
    {author description : TextArg}
    (h : SessionStore.apply_direct_mutation v sid m author description cid st = (.ok (), st')) :
    ∃ s s', st.sessions.get? sid = some s ∧ st'.sessions.get? sid = some s' ∧
      CheckpointStep v s s' (.apply_direct_mutation sid m author description cid) := by
  simp only [SessionStore.apply_direct_mutation, SessionStore.assign, SessionStore.publish,
    bind_eq_ok, SessionStore.get_eq_ok, check_eq_ok, lift_eq_ok, write_eq_ok, decide_eq_true_eq,
    Checks.mapError_eq_ok] at h
  obtain ⟨s, _, ⟨hs, rfl⟩, _, _, ⟨-, rfl⟩, g, _, ⟨hg, rfl⟩, k, _, ⟨hk, rfl⟩, _, _, rfl,
    _, _, rfl, _, _, rfl, rfl⟩ := h
  obtain ⟨hm, hprevious, hbase, hresulting⟩ := Checkpoint.new_eq_ok hk
  refine ⟨s, { s with
    graph := g, version := s.version + 1
    checkpoints := s.checkpoints.set cid k }, hs, ?_, .changed hg
      ⟨rfl, hm, hprevious, hbase, hresulting, rfl⟩⟩
  simp [Dict.get?_modify, hs]

theorem revert_checkpoint_records {sid cid rid : String}
    (h : SessionStore.revert_checkpoint sid cid rid st = (.ok (), st')) :
    ∃ s s', st.sessions.get? sid = some s ∧ st'.sessions.get? sid = some s' ∧
      CheckpointStep v s s' (.revert_checkpoint sid cid rid) := by
  simp only [SessionStore.revert_checkpoint, SessionStore.assign, SessionStore.publish,
    bind_eq_ok, SessionStore.get_eq_ok, lift_eq_ok, write_eq_ok,
    GraphSession.get_checkpoint_eq_ok, Checks.mapError_eq_ok] at h
  obtain ⟨s, _, ⟨hs, rfl⟩, old, _, ⟨hold, rfl⟩, inverse, _, ⟨hinverse, rfl⟩, _, _, rfl, _, _, rfl,
    k, _, ⟨hk, rfl⟩, _, _, rfl, rfl⟩ := h
  obtain ⟨hm, hprevious, hbase, hresulting⟩ := Checkpoint.new_eq_ok hk
  refine ⟨s, { s with
    graph := old.previous_graph, version := s.version + 1
    checkpoints := s.checkpoints.set rid k }, hs, ?_, .reverted hold hinverse rfl
      ⟨rfl, hm, hprevious, hbase, hresulting, rfl⟩⟩
  simp [Dict.get?_modify, hs]

/-- A call of session `sid` that returns makes a checkpoint step. -/
theorem checkpoint_next {c : Call Sub} {sid : String} {s : GraphSession Sub Diag}
    (hs : st.sessions.get? sid = some s) (hsid : c.session_id = sid)
    (hret : c.returns v st = true) :
    ∃ s', (c.after v st).sessions.get? sid = some s' ∧ CheckpointStep v s s' c := by
  have hrun := Call.run_of_returns hret
  subst hsid
  -- the recording methods name their session again
  have hagain : ∀ {c' : Call Sub}, (∃ t t', st.sessions.get? c'.session_id = some t ∧
      (c'.after v st).sessions.get? c'.session_id = some t' ∧ CheckpointStep v t t' c') →
      st.sessions.get? c'.session_id = some s →
      ∃ s', (c'.after v st).sessions.get? c'.session_id = some s' ∧ CheckpointStep v s s' c' := by
    rintro c' ⟨t, t', ht, ht', hstep⟩ hs
    rw [hs, Option.some.injEq] at ht
    subst ht
    exact ⟨t', ht', hstep⟩
  cases c with
  | accept_proposal sid pid cid => exact hagain (accept_proposal_records hrun) hs
  | apply_direct_mutation sid m author description cid =>
      exact hagain (apply_direct_mutation_records hrun) hs
  | revert_checkpoint sid cid rid => exact hagain (revert_checkpoint_records hrun) hs
  | replace_graph sid g n =>
      rcases session_next (v := v) (c := .replace_graph sid g n) hs with
        ⟨-, hnot⟩ | ⟨s', _, -, -, hs', hstep⟩
      · simp [Call.replaces, Call.changes_graph, Call.session_id, hret] at hnot
      · cases hstep
        exact ⟨_, hs', .replaced rfl⟩
  | add_proposal sid m pid =>
      rcases session_next (v := v) (c := .add_proposal sid m pid) hs with
        ⟨hs', -⟩ | ⟨s', _, -, -, hs', hstep⟩
      · exact ⟨s, hs', .kept rfl rfl rfl⟩
      · cases hstep
        exact ⟨_, hs', .kept rfl rfl rfl⟩
  | reject_proposal sid pid =>
      rcases session_next (v := v) (c := .reject_proposal sid pid) hs with
        ⟨hs', -⟩ | ⟨s', _, -, -, hs', hstep⟩
      · exact ⟨s, hs', .kept rfl rfl rfl⟩
      · cases hstep
        exact ⟨_, hs', .kept rfl rfl rfl⟩
  | subscribe sid q | unsubscribe sid q =>
      rcases session_next (v := v) hs with ⟨hs', -⟩ | ⟨s', _, -, -, hs', hstep⟩
      · exact ⟨s, hs', .kept rfl rfl rfl⟩
      · cases hstep

end Step

/-! ## Faithful checkpoints -/

/-- In the run `calls` from `st`, session `sid` had version `n` and graph
`g` at some point. -/
def GraphAt (v : Validation Sub Diag) (st : SessionStore Sub Diag) (sid : String)
    (calls : List (Call Sub)) (n : Int) (g : Graph Sub) : Prop :=
  ∃ pre post s, calls = pre ++ post ∧ sessionAfter v st sid pre = some s ∧
    s.version = n ∧ s.graph = g

/-- The checkpoint tells what happened in the run. -/
structure Checkpoint.Faithful (v : Validation Sub Diag) (st : SessionStore Sub Diag)
    (sid : String) (calls : List (Call Sub)) (k : Checkpoint Sub) : Prop where
  before : GraphAt v st sid calls k.base_version k.previous_graph
  next_version : k.resulting_version = k.base_version + 1
  after : ∃ g h, apply_mutation v.registry k.previous_graph k.mutation = .ok g ∧
    GraphAt v st sid calls k.resulting_version h ∧ g.Same h
  inverts : ∃ m, invert_mutation k.previous_graph k.mutation = .ok m

/-- Every checkpoint of session `sid` after the run is faithful. -/
def FaithfulHistory (v : Validation Sub Diag) (st : SessionStore Sub Diag) (sid : String)
    (calls : List (Call Sub)) : Prop :=
  ∀ s id k, sessionAfter v st sid calls = some s → s.checkpoints.get? id = some k →
    k.Faithful v st sid calls

/-- The call records a mutation that can be inverted: an edit only sets
params that are there, and a revert meets a graph from which the inverse of
the old mutation leads to the old graph. -/
def Call.Reversible (v : Validation Sub Diag) (s : GraphSession Sub Diag) : Call Sub → Prop
  | .accept_proposal _ pid _ =>
      ∀ p, s.proposals.get? pid = some p → EditsCarried s.graph p.mutation
  | .apply_direct_mutation _ m _ _ _ => EditsCarried s.graph m
  | .revert_checkpoint _ cid _ => ∀ old, s.checkpoints.get? cid = some old →
      EditsCarried s.graph old.mutation ∧
        Restores v.registry s.graph old.previous_graph old.mutation
  | _ => True

/-- Every call of session `sid` in the run that returns is reversible. -/
def ReversibleRun (v : Validation Sub Diag) (st : SessionStore Sub Diag) (sid : String)
    (calls : List (Call Sub)) : Prop :=
  ∀ pre c post, calls = pre ++ c :: post → c.session_id = sid →
    c.returns v (run v st pre) = true → ∀ s, sessionAfter v st sid pre = some s →
      c.Reversible v s

/-- The graphs handed to the store are valid, as every `Graph` object is. -/
def ValidGraphs (calls : List (Call Sub)) : Prop :=
  ∀ sid g n, .replace_graph sid g n ∈ calls → g.Valid

section Histories

variable {v : Validation Sub Diag} {st : SessionStore Sub Diag} {sid : String}
  {calls : List (Call Sub)}

theorem GraphAt.more {n : Int} {g : Graph Sub} (h : GraphAt v st sid calls n g)
    (more : List (Call Sub)) : GraphAt v st sid (calls ++ more) n g := by
  obtain ⟨pre, post, s, rfl, hs, hn, hg⟩ := h
  exact ⟨pre, post ++ more, s, List.append_assoc _ _ _, hs, hn, hg⟩

theorem GraphAt.now {s : GraphSession Sub Diag} (hs : sessionAfter v st sid calls = some s) :
    GraphAt v st sid calls s.version s.graph :=
  ⟨calls, [], s, (List.append_nil _).symm, hs, rfl, rfl⟩

/-- One version has one graph. -/
theorem GraphAt.unique {n : Int} {g h : Graph Sub} (hg : GraphAt v st sid calls n g)
    (hh : GraphAt v st sid calls n h) : g = h := by
  obtain ⟨pre, post, s, rfl, hs, hn, rfl⟩ := hg
  obtain ⟨pre', post', s', hsplit, hs', hn', rfl⟩ := hh
  -- of two prefixes with one version neither replaces the graph past the other
  have hstays : ∀ {l mid : List (Call Sub)} {t t' : GraphSession Sub Diag},
      sessionAfter v st sid l = some t → sessionAfter v st sid (l ++ mid) = some t' →
        t.version = t'.version → t.graph = t'.graph := by
    intro l mid t t' ht ht' heq
    obtain ⟨t'', ht'', hcount, hgraph⟩ := session_run (v := v) ht mid
    rw [sessionAfter, run_append, ht'', Option.some.injEq] at ht'
    subst ht'
    exact (hgraph (by omega)).symm
  rcases List.append_eq_append_iff.mp hsplit with ⟨mid, rfl, -⟩ | ⟨mid, rfl, -⟩
  · exact hstays hs hs' (hn.trans hn'.symm)
  · exact (hstays hs' hs (hn'.trans hn.symm)).symm

theorem Checkpoint.Faithful.more {k : Checkpoint Sub} (h : k.Faithful v st sid calls)
    (more : List (Call Sub)) : k.Faithful v st sid (calls ++ more) := by
  obtain ⟨g, g', happly, hat, hsame⟩ := h.after
  exact ⟨h.before.more more, h.next_version, ⟨g, g', happly, hat.more more, hsame⟩, h.inverts⟩

/-- A step either leaves the session and the call list's last state alone or
makes a checkpoint step. -/
theorem checkpoint_run_next {s : GraphSession Sub Diag} {c : Call Sub}
    (hs : sessionAfter v st sid calls = some s) :
    ∃ s', sessionAfter v st sid (calls ++ [c]) = some s' ∧
      (s' = s ∨ c.session_id = sid ∧ c.returns v (run v st calls) = true ∧
        CheckpointStep v s s' c) := by
  rw [sessionAfter, run_concat]
  rcases session_next (v := v) (c := c) hs with ⟨hs', -⟩ | ⟨_, _, hsid, hret, -, -⟩
  · exact ⟨s, hs', .inl rfl⟩
  · obtain ⟨s', hs', hstep⟩ := checkpoint_next hs hsid hret
    exact ⟨s', hs', .inr ⟨hsid, hret, hstep⟩⟩

/-- Every graph of the session is valid, the recorded ones included. -/
theorem valid_run {s₀ s : GraphSession Sub Diag} (hs₀ : st.sessions.get? sid = some s₀)
    (hg₀ : s₀.graph.Valid) (hnone : s₀.checkpoints = Dict.empty) (hvalid : ValidGraphs calls)
    (hs : sessionAfter v st sid calls = some s) :
    s.graph.Valid ∧ ∀ id k, s.checkpoints.get? id = some k → k.previous_graph.Valid := by
  induction calls using List.reverseRecOn generalizing s with
  | nil =>
      rw [show sessionAfter v st sid [] = some s₀ from hs₀, Option.some.injEq] at hs
      subst hs
      refine ⟨hg₀, fun id k hk => ?_⟩
      rw [hnone] at hk
      cases hk
  | append_singleton calls c ih =>
      obtain ⟨t, ht, -, -⟩ := session_run (v := v) hs₀ calls
      obtain ⟨hgraph, hprevious⟩ :=
        ih (fun sid g n h => hvalid sid g n (List.mem_append_left _ h)) ht
      obtain ⟨s', hs', hstep⟩ := checkpoint_run_next (c := c) ht
      rw [hs, Option.some.injEq] at hs'
      subst hs'
      -- a checkpoint keeps the graph from before its call, which is valid
      have hrecords : ∀ {id m k}, Records id m t s k →
          ∀ id k, s.checkpoints.get? id = some k → k.previous_graph.Valid := by
        intro id m k hr id' k' hk'
        rw [hr.stored, Dict.get?_set] at hk'
        split at hk'
        · cases hk'
          rw [hr.previous_graph]
          exact hgraph
        · exact hprevious id' k' hk'
      rcases hstep with rfl | ⟨-, -, hstep⟩
      · exact ⟨hgraph, hprevious⟩
      · cases hstep with
        | kept _ hcheckpoints hsame => exact ⟨hsame ▸ hgraph, hcheckpoints ▸ hprevious⟩
        | replaced hcheckpoints =>
            exact ⟨hvalid _ _ _ (List.mem_append_right _ (List.mem_singleton_self _)),
              hcheckpoints ▸ hprevious⟩
        | accepted found applied records | changed applied records =>
            obtain ⟨_, _, _, ha⟩ := apply_mutation_spec applied
            exact ⟨ha.valid, hrecords records⟩
        | reverted found inverted graph records =>
            exact ⟨graph ▸ hprevious _ _ found, hrecords records⟩

/-- A recorded checkpoint is faithful when its mutation leads to the new
graph and can be inverted. -/
theorem Records.faithful_iff {id : String} {m : GraphMutation Sub} {c : Call Sub}
    {s s' : GraphSession Sub Diag} {k : Checkpoint Sub} (hr : Records id m s s' k)
    (hs : sessionAfter v st sid calls = some s)
    (hs' : sessionAfter v st sid (calls ++ [c]) = some s') :
    k.Faithful v st sid (calls ++ [c]) ↔
      (∃ g, apply_mutation v.registry s.graph m = .ok g ∧ g.Same s'.graph) ∧
        ∃ m', invert_mutation s.graph m = .ok m' := by
  have hversion : k.resulting_version = s'.version := by
    rw [hr.resulting_version, hr.version]
  constructor
  · intro hk
    obtain ⟨g, h, happly, hat, hsame⟩ := hk.after
    have hinverts := hk.inverts
    rw [hversion] at hat
    rw [hr.previous_graph, hr.mutation] at happly hinverts
    rw [hat.unique (.now hs')] at hsame
    exact ⟨⟨g, happly, hsame⟩, hinverts⟩
  · rintro ⟨⟨g, happly, hsame⟩, hinverts⟩
    rw [← hr.previous_graph, ← hr.mutation] at happly hinverts
    refine ⟨?_, by rw [hr.resulting_version, hr.base_version], ⟨g, s'.graph, happly, ?_, hsame⟩,
      hinverts⟩
    · rw [hr.base_version, hr.previous_graph]
      exact (GraphAt.now hs).more [c]
    · rw [hversion]
      exact .now hs'

/-- The checkpoint of an edit is faithful when its mutation can be inverted. -/
theorem Records.edit_faithful_iff {id : String} {m : GraphMutation Sub} {c : Call Sub}
    {s s' : GraphSession Sub Diag} {k : Checkpoint Sub} (hr : Records id m s s' k)
    (hs : sessionAfter v st sid calls = some s)
    (hs' : sessionAfter v st sid (calls ++ [c]) = some s') (hg : s.graph.Valid)
    (applied : apply_mutation v.registry s.graph m = .ok s'.graph) :
    k.Faithful v st sid (calls ++ [c]) ↔ EditsCarried s.graph m := by
  obtain ⟨_, _, _, ha⟩ := apply_mutation_spec applied
  have hrefl : s'.graph.Same s'.graph :=
    ⟨rfl, rfl, rfl, fun _ => rfl, fun _ => rfl, fun _ => rfl⟩
  rw [hr.faithful_iff hs hs']
  constructor
  · rintro ⟨-, m', hm'⟩
    exact (invert_mutation_spec hg hm').edits_carried
  · intro h
    exact ⟨⟨s'.graph, applied, hrefl⟩, invert_mutation_exists ha.takes_out.1 ha.takes_out.2 h⟩

/-- The checkpoint of a revert is faithful when the inverse of the old
mutation leads from the current graph to the old one. -/
theorem Records.revert_faithful_iff {id : String} {inverse : GraphMutation Sub} {c : Call Sub}
    {s s' : GraphSession Sub Diag} {old k : Checkpoint Sub} (hr : Records id inverse s s' k)
    (hs : sessionAfter v st sid calls = some s)
    (hs' : sessionAfter v st sid (calls ++ [c]) = some s') (hg : s.graph.Valid)
    (hold : old.previous_graph.Valid) (hfaithful : old.Faithful v st sid calls)
    (inverted : invert_mutation old.previous_graph old.mutation = .ok inverse)
    (graph : s'.graph = old.previous_graph) :
    k.Faithful v st sid (calls ++ [c]) ↔ EditsCarried s.graph old.mutation ∧
      Restores v.registry s.graph old.previous_graph old.mutation := by
  have hi := invert_mutation_spec hold inverted
  obtain ⟨_, _, hforward, -, -⟩ := hfaithful.after
  obtain ⟨_, _, _, ha⟩ := apply_mutation_spec hforward
  rw [hr.faithful_iff hs hs', graph]
  constructor
  · rintro ⟨⟨g, happly, hsame⟩, m', hm'⟩
    exact ⟨hi.edits_carried_iff.mp (invert_mutation_spec hg hm').edits_carried,
      ha.restores hi happly hsame⟩
  · rintro ⟨hcarried, hrestores⟩
    obtain ⟨g, happly, hsame⟩ := ha.leads_back hi hold hrestores
    obtain ⟨_, _, _, hback⟩ := apply_mutation_spec happly
    exact ⟨⟨g, happly, hsame⟩, invert_mutation_exists hback.takes_out.1 hback.takes_out.2
      (hi.edits_carried_iff.mpr hcarried)⟩

/-- Reverting the latest change is fine when it set no params and removed
no node at the default position. -/
theorem revertible_latest {s : GraphSession Sub Diag} {old : Checkpoint Sub}
    (hold : old.previous_graph.Valid)
    (happly : apply_mutation v.registry old.previous_graph old.mutation = .ok s.graph)
    (hinvert : ∃ m, invert_mutation old.previous_graph old.mutation = .ok m)
    (hset : old.mutation.set_params = Dict.empty)
    (hplaced : {} ∉ removed_positions old.previous_graph old.mutation) :
    EditsCarried s.graph old.mutation ∧
      Restores v.registry s.graph old.previous_graph old.mutation := by
  obtain ⟨m, hm⟩ := hinvert
  constructor
  · intro k updates hk
    rw [hset] at hk
    cases hk
  · apply (restores_iff_roundTrips hold happly hm).mpr
    refine ⟨.inl hplaced, ?_, ?_⟩
    · intro k updates n hk
      rw [hset] at hk
      cases hk
    · intro k n hk
      rw [hset] at hk
      cases hk

/-- In a step from a faithful history the new checkpoint, if any, is
faithful exactly when the call is reversible. -/
theorem faithful_next_iff {s₀ s : GraphSession Sub Diag}
    (hs₀ : st.sessions.get? sid = some s₀) (hg₀ : s₀.graph.Valid)
    (hnone : s₀.checkpoints = Dict.empty) (hvalid : ValidGraphs calls) {c : Call Sub}
    (hfaithful : FaithfulHistory v st sid calls) (hs : sessionAfter v st sid calls = some s)
    (hsid : c.session_id = sid) (hret : c.returns v (run v st calls) = true) :
    FaithfulHistory v st sid (calls ++ [c]) ↔ c.Reversible v s := by
  obtain ⟨s', hs', hstep⟩ := checkpoint_next hs hsid hret
  rw [← run_concat] at hs'
  obtain ⟨hg, hprevious⟩ := valid_run hs₀ hg₀ hnone hvalid hs
  have hold : ∀ {id k}, s.checkpoints.get? id = some k → k.Faithful v st sid (calls ++ [c]) :=
    fun hk => (hfaithful s _ _ hs hk).more [c]
  -- the history is faithful once the checkpoint just recorded is
  have hnew : ∀ {id m k}, Records id m s s' k →
      (FaithfulHistory v st sid (calls ++ [c]) ↔ k.Faithful v st sid (calls ++ [c])) := by
    intro id m k hr
    constructor
    · intro h
      exact h s' id k hs' (by rw [hr.stored, Dict.get?_set_self])
    · intro hk t id' k' ht hk'
      rw [show sessionAfter v st sid (calls ++ [c]) = some s' from hs', Option.some.injEq] at ht
      subst ht
      rw [hr.stored, Dict.get?_set] at hk'
      split at hk'
      · cases hk'
        exact hk
      · exact hold hk'
  have hkept : s'.checkpoints = s.checkpoints → FaithfulHistory v st sid (calls ++ [c]) := by
    intro hcheckpoints t id k ht hk
    rw [show sessionAfter v st sid (calls ++ [c]) = some s' from hs', Option.some.injEq] at ht
    subst ht
    exact hold (hcheckpoints ▸ hk)
  cases hstep with
  | kept quiet hcheckpoints _ =>
      refine iff_of_true (hkept hcheckpoints) ?_
      cases c with
      | replace_graph | accept_proposal | apply_direct_mutation | revert_checkpoint => cases quiet
      | add_proposal | reject_proposal | subscribe | unsubscribe => trivial
  | replaced hcheckpoints => exact iff_of_true (hkept hcheckpoints) trivial
  | accepted found applied records =>
      rw [hnew records, records.edit_faithful_iff hs hs' hg applied]
      simp only [Call.Reversible, found, Option.some.injEq, forall_eq']
  | changed applied records =>
      rw [hnew records, records.edit_faithful_iff hs hs' hg applied, Call.Reversible]
  | reverted found inverted graph records =>
      rw [hnew records, records.revert_faithful_iff hs hs' hg (hprevious _ _ found)
        (hfaithful s _ _ hs found) inverted graph]
      simp only [Call.Reversible, found, Option.some.injEq, forall_eq']

end Histories

/-- The checkpoints of a session that starts new are faithful at every
point of a run exactly when every call that returns is reversible. -/
theorem checkpoint_history_faithful_iff (v : Validation Sub Diag) {st : SessionStore Sub Diag}
    {sid : String} {g : Graph Sub} (hs₀ : st.sessions.get? sid = some (.new sid g))
    (hg : g.Valid) (calls : List (Call Sub)) (hvalid : ValidGraphs calls) :
    (∀ pre post, calls = pre ++ post → FaithfulHistory v st sid pre) ↔
      ReversibleRun v st sid calls := by
  have hvalid_pre : ∀ {pre post}, calls = pre ++ post → ValidGraphs pre := by
    rintro pre post rfl sid' g' n hmem
    exact hvalid sid' g' n (List.mem_append_left _ hmem)
  constructor
  · intro h pre c post hsplit hsid hret s hs
    rw [← faithful_next_iff hs₀ hg rfl (hvalid_pre hsplit) (h pre _ hsplit) hs hsid hret]
    exact h (pre ++ [c]) post (by rw [hsplit]; simp)
  · intro h pre
    induction pre using List.reverseRecOn with
    | nil =>
        intro post _ s id k hs hk
        rw [show sessionAfter v st sid [] = some (.new sid g) from hs₀, Option.some.injEq] at hs
        subst hs
        cases hk
    | append_singleton pre c ih =>
        intro post hsplit
        have hsplit' : calls = pre ++ c :: post := by rw [hsplit]; simp
        have hpre := ih (c :: post) hsplit'
        obtain ⟨s, hs, -, -⟩ := session_run (v := v) hs₀ pre
        obtain ⟨s', hs', hsame | ⟨hsid, hret, -⟩⟩ := checkpoint_run_next (c := c) hs
        · -- the call raised, or was to another session
          intro t id k ht hk
          rw [hs', hsame, Option.some.injEq] at ht
          subst ht
          exact (hpre _ id k hs hk).more [c]
        · rw [faithful_next_iff hs₀ hg rfl (hvalid_pre hsplit') hpre hs hsid hret]
          exact h pre c post hsplit' hsid hret s hs

/-! ## Examples -/

/-- A direct edit that adds one node. -/
def add_one (id : String) (base_version : Int) (checkpoint_id : String) : Call Empty :=
  .apply_direct_mutation "s"
    { base_version := base_version
      add_nodes := [{ id := id, type := "t", position := { x := 1 } }] }
    (.str "agent") (.str "") checkpoint_id

def no_nodes : SessionStore Empty Unit :=
  { sessions := Dict.empty.set "s" (.new "s" {}) }

def unregistered : Validation Empty Unit :=
  ⟨fun _ => none, fun _ => (), fun _ => some ()⟩

/-- A direct edit that removes one node. -/
def remove_one (id : String) (base_version : Int) (checkpoint_id : String) : Call Empty :=
  .apply_direct_mutation "s" { base_version := base_version, remove_nodes := [id] }
    (.str "agent") (.str "") checkpoint_id

/-- A node is added and removed, then its addition is reverted. -/
def out_of_order : List (Call Empty) :=
  [add_one "a" 0 "c1", remove_one "a" 1 "c2", .revert_checkpoint "s" "c1" "c3"]

/-- The revert removes a node from a graph that does not have it, so its
checkpoint cannot be inverted, and reverting the revert raises. -/
theorem revert_older_edit_unfaithful :
    ¬ FaithfulHistory unregistered no_nodes "s" out_of_order ∧
      (Call.revert_checkpoint "s" "c3" "c4").returns unregistered
        (run unregistered no_nodes out_of_order) = false := by
  refine ⟨?_, rfl⟩
  intro h
  obtain ⟨m, hm⟩ := (h _ "c3" _ rfl rfl).inverts
  cases hm

/-- An edit, its revert, and the revert of that revert. -/
def back_and_forth : List (Call Empty) :=
  [add_one "a" 0 "c1", .revert_checkpoint "s" "c1" "c2", .revert_checkpoint "s" "c2" "c3"]

theorem back_and_forth_faithful :
    FaithfulHistory unregistered no_nodes "s" back_and_forth := by
  apply (checkpoint_history_faithful_iff unregistered (g := {}) rfl
    (Graph.validate_structure_eq_ok.mp rfl) back_and_forth ?_).mpr ?_ _ [] rfl
  · intro sid g n hmem
    simp [back_and_forth, add_one] at hmem
  · rintro pre c post hsplit - - s hs
    rcases pre with _ | ⟨c₁, _ | ⟨c₂, _ | ⟨c₃, pre⟩⟩⟩
    · cases hsplit
      intro k updates hset
      cases hset
    · cases hsplit
      cases hs
      rintro old hold
      cases hold
      exact revertible_latest (Graph.validate_structure_eq_ok.mp rfl) rfl ⟨_, rfl⟩ rfl (by decide)
    · cases hsplit
      cases hs
      rintro old hold
      cases hold
      exact revertible_latest (Graph.validate_structure_eq_ok.mp rfl) rfl ⟨_, rfl⟩ rfl (by decide)
    · simp [back_and_forth] at hsplit

end EmergentFlow
