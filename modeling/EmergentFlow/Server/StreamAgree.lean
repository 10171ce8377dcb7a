import EmergentFlow.Server.StreamRun

/-!
# Server — StreamAgree

Two walks side by side, of the same graph but on two servers. Where a
node's sources have the same values on both, where the node does the same
when it is run, and where no cache answers anything else, the visits yield
the same events, up to the remark that a result came from the cache.
-/

namespace EmergentFlow

variable {Sub V C ε : Type} {sv sv' : Server Sub V C ε} {g : Graph Sub} {w : WiringMap}
  {node : Node Sub} {id : String} {st : WalkState sv} {st' : WalkState sv'}
  {total index : Nat} {t : Trace sv} {t' : Trace sv'}

/-- The server on which the nodes do something else. -/
def Server.behaving (sv : Server Sub V C ε) (call : Behaviour Sub V C ε) : Server Sub V C ε :=
  { sv with call }

/-- The status without the remark that the results came from the cache. -/
def NodeStatus.plain : NodeStatus → NodeStatus
  | .CACHED => .OK
  | status => status

/-- The event without that remark. -/
def NodeEvent.plain : NodeEvent V ε → NodeEvent V ε
  | .ok id label results _ => .ok id label results false
  | event => event

/-- Two states hold the same about a node. -/
structure SameOutcome (id : String) (st : WalkState sv) (st' : WalkState sv') : Prop where
  status : (st.node_status.get? id).map NodeStatus.plain =
    (st'.node_status.get? id).map NodeStatus.plain
  results : st.node_results.get? id = st'.node_results.get? id

/-- What the cache holds for the node is what running it returns. -/
def Transparent (g : Graph Sub) (w : WiringMap) (node : Node Sub) (st : WalkState sv) : Prop :=
  ∀ bound key outputs, st.binding g w node = .ok bound →
    sv.node_key node bound.upstream_hashes = some key →
    sv.cache.view st.cache key = some outputs → sv.run_node node bound.inputs = .ok outputs

/-- A source about which the states hold the same has the same value, and
is the same reason to skip. -/
theorem SameOutcome.value {src : PortRef} (h : SameOutcome src.node_id st st')
    (hartifact : st.node_status.get? src.node_id = none →
      st.artifact src.node_id = st'.artifact src.node_id) :
    st.value g src = st'.value g src ∧
      skip_reason st.node_status src = skip_reason st'.node_status src := by
  have hstatus := h.status
  have hvalue : ∀ results results' : Results V,
      results.get? src.node_id = results'.get? src.node_id →
        g.source_value results src = g.source_value results' src := by
    intro results results' heq
    simp only [Graph.source_value, Results.value, heq]
  simp only [WalkState.value, upstream_value, skip_reason, hvalue _ _ h.results]
  cases hst : st.node_status.get? src.node_id with
  | none =>
      rw [hst] at hstatus
      rw [Option.map_eq_none_iff.mp hstatus.symm, hartifact hst]
      exact ⟨rfl, rfl⟩
  | some status =>
      rw [hst, Option.map_some] at hstatus
      obtain ⟨status', hst', hplain⟩ := Option.map_eq_some_iff.mp hstatus.symm
      rw [hst']
      cases status <;> cases status' <;> simp [NodeStatus.plain] at hplain ⊢

/-- A node whose sources have the same values is bound to the same inputs. -/
theorem binding_agree (hwired : Wired w node (g.port_sources id) node.in_ports)
    (hruntime : sv.runtime = sv'.runtime)
    (h : ∀ port ∈ node.in_ports, ∀ src ∈ g.port_sources id port,
      st.value g src = st'.value g src ∧
        skip_reason st.node_status src = skip_reason st'.node_status src) :
    Bound.inputs <$> st.binding g w node = Bound.inputs <$> st'.binding g w node := by
  unfold WalkState.binding
  rw [hruntime]
  apply bind_ports_congr _ _ _ fun stop f => rfl
  · intro port hport l hl src hsrc
    rw [hwired.upstream port hport, Option.some.injEq] at hl
    exact h port hport src (hl ▸ hsrc)
  · rfl

/-- How a visit ends: its events, what escapes, and what is recorded for the
node. -/
structure Ending (V ε : Type) where
  events : List (NodeEvent V ε)
  escaped : Option (String × Failure ε) := none
  status : Option NodeStatus := none
  outputs : Option (Dict String V) := none

/-- The end of a visit without a cache, by the inputs that are bound. -/
def Server.ending (sv : Server Sub V C ε) (node : Node Sub) (id : String) (total index : Nat) :
    Except Stop (Dict String V) → Ending V ε
  | .error (.raise failure) => { events := [], escaped := some (id, .lookup failure) }
  | .error (.skip reason) =>
      { events := [.skip id (node.label.getD "") reason], status := some .SKIPPED }
  | .ok inputs =>
      let start := .start id (node.label.getD "") index total
      match sv.run_node node inputs with
      | .error e =>
          if sv.catches e then
            { events := [start, .error id (node.label.getD "") e], status := some .ERROR }
          else { events := [start], escaped := some (id, e) }
      | .ok outputs =>
          { events := [start, .ok id (node.label.getD "") outputs false]
            status := some .OK
            outputs := some outputs }

/-- The visit ended so, up to remarks about the cache. -/
structure Ends (id : String) (node : Node Sub) (st : WalkState sv) (artifacts : sv.artifacts.State)
    (t : Trace sv) (ending : Ending V ε) : Prop where
  events : t.events.map NodeEvent.plain = ending.events
  escaped : t.escaped = ending.escaped
  status : (t.state.node_status.get? id).map NodeStatus.plain =
    ending.status.or ((st.node_status.get? id).map NodeStatus.plain)
  results : t.state.node_results.get? id = ending.outputs.or (st.node_results.get? id)
  artifacts : t.state.artifacts = match ending.outputs with
    | none => artifacts
    | some outputs => sv.artifacts.put artifacts (safe_key sv.hashing.sha256 id) outputs
        (id, node.label.getD "")

/-- Behind a cache that answers right, a visit ends as it does without one. -/
theorem Visited.ends (ht : Visited g w total index id node st t)
    (hcache : Transparent g w node st) :
    Ends id node st (st.read_artifacts g w node) t
      (sv.ending node id total index (Bound.inputs <$> st.binding g w node)) := by
  cases ht with
  | escaped bind =>
      rw [bind]
      exact ⟨rfl, rfl, rfl, rfl, rfl⟩
  | skipped bind =>
      rw [bind]
      exact ⟨rfl, rfl, by simp [Server.ending, NodeStatus.plain], rfl, rfl⟩
  | @interrupted bound e cache bind interrupted =>
      have hending : sv.ending node id total index (.ok bound.inputs) =
          { events := [.start id (node.label.getD "") index total], escaped := some (id, e) } := by
        have hrun : sv.run_node node bound.inputs = .error e := interrupted.run
        simp [Server.ending, hrun, interrupted.uncaught]
      rw [bind, Except.map_ok, hending]
      exact ⟨rfl, rfl, rfl, rfl, rfl⟩
  | @ran bound event after bind ran =>
      have hreturned : ∀ outputs, sv.run_node node bound.inputs = .ok outputs →
          sv.ending node id total index (.ok bound.inputs) = {
            events := [.start id (node.label.getD "") index total,
              .ok id (node.label.getD "") outputs false]
            status := some .OK
            outputs := some outputs } := fun outputs hrun => by simp [Server.ending, hrun]
      rw [bind, Except.map_ok]
      cases ran with
      | @failed e cache miss run caught kept =>
          have hending : sv.ending node id total index (.ok bound.inputs) = {
              events := [.start id (node.label.getD "") index total,
                .error id (node.label.getD "") e]
              status := some .ERROR } := by
            have hrun : sv.run_node node bound.inputs = .error e := run
            simp [Server.ending, hrun, caught]
          rw [hending]
          exact ⟨rfl, rfl, by simp [WalkState.fail, NodeStatus.plain], rfl, rfl⟩
      | hit hash found kept =>
          rw [hreturned _ (hcache _ _ _ bind hash found)]
          exact ⟨rfl, rfl, by simp [WalkState.record, NodeStatus.plain], by simp [WalkState.record],
            rfl⟩
      | fresh miss run stored =>
          rw [hreturned _ run]
          exact ⟨rfl, rfl, by simp [WalkState.record, NodeStatus.plain], by simp [WalkState.record],
            rfl⟩

/-- Two visits of a node with the same inputs and the same behaviour. -/
theorem Visited.agree (ht : Visited g w total index id node st t)
    (ht' : Visited g w total index id node st' t')
    (hbind : Bound.inputs <$> st.binding g w node = Bound.inputs <$> st'.binding g w node)
    (hrun : ∀ inputs, sv.run_node node inputs = sv'.run_node node inputs)
    (hcatches : sv.catches = sv'.catches)
    (hcache : Transparent g w node st) (hcache' : Transparent g w node st') :
    t.events.map NodeEvent.plain = t'.events.map NodeEvent.plain ∧ t.escaped = t'.escaped ∧
      (SameOutcome id st st' → SameOutcome id t.state t'.state) := by
  have hending : sv.ending node id total index = sv'.ending node id total index := by
    funext inputs
    cases inputs with
    | error stop => cases stop <;> rfl
    | ok inputs => simp only [Server.ending, hrun, hcatches]
  have h := ht.ends hcache
  have h' := ht'.ends hcache'
  rw [← hbind, ← hending] at h'
  refine ⟨h.events.trans h'.events.symm, h.escaped.trans h'.escaped.symm, fun hsame => ⟨?_, ?_⟩⟩
  · rw [h.status, h'.status, hsame.status]
  · rw [h.results, h'.results, hsame.results]

/-- What two states hold about other nodes survives a visit. -/
theorem SameOutcome.frame {other : String} (h : SameOutcome other st st')
    (ht : Visited g w total index id node st t) (ht' : Visited g w total index id node st' t')
    (hne : other ≠ id) : SameOutcome other t.state t'.state := by
  obtain ⟨hstatus, hresults, -⟩ := ht.frame hne
  obtain ⟨hstatus', hresults', -⟩ := ht'.frame hne
  exact ⟨by rw [hstatus, hstatus', h.status], by rw [hresults, hresults', h.results]⟩

/-! ## The twin without a cache -/

/-- The server without a cache. -/
def Server.uncached (sv : Server Sub V C ε) : Server Sub V C ε :=
  { sv with cache := .null _ _ _ }

/-- A walk and its twin without a cache are in the same state, hashes and
cache apart. -/
structure Twin (st : WalkState sv) (twin : WalkState sv.uncached) : Prop where
  outcome : ∀ id, SameOutcome id st twin
  artifacts : st.artifacts = twin.artifacts

section Twin

variable {twin : WalkState sv.uncached} {tt : Trace sv.uncached}

theorem Twin.value (h : Twin st twin) (src : PortRef) : st.value g src = twin.value g src ∧
    skip_reason st.node_status src = skip_reason twin.node_status src := by
  apply (h.outcome src.node_id).value
  intro _
  rw [WalkState.artifact, h.artifacts]
  rfl

/-- The twins read the same artifacts on the way to a node. -/
theorem Twin.read_artifacts (h : Twin st twin) (g : Graph Sub) (w : WiringMap) (node : Node Sub) :
    st.read_artifacts g w node = twin.read_artifacts g w node := by
  have hresolve : ∀ src,
      resolve_upstream_value sv g st.node_status st.node_results src =
        resolve_upstream_value sv.uncached g twin.node_status twin.node_results src := by
    intro src
    have hstatus := (h.outcome src.node_id).status
    have hvalue : g.source_value st.node_results src = g.source_value twin.node_results src := by
      simp only [Graph.source_value, Results.value, (h.outcome src.node_id).results]
    simp only [resolve_upstream_value, hvalue]
    cases hst : st.node_status.get? src.node_id with
    | none =>
        rw [hst] at hstatus
        rw [Option.map_eq_none_iff.mp hstatus.symm]
        rfl
    | some status =>
        rw [hst, Option.map_some] at hstatus
        obtain ⟨status', hst', hplain⟩ := Option.map_eq_some_iff.mp hstatus.symm
        rw [hst']
        cases status <;> cases status' <;> simp [NodeStatus.plain] at hplain ⊢ <;> rfl
  have hbind : Bound.inputs <$> st.bind g w node = Bound.inputs <$> twin.bind g w node := by
    apply bind_ports_congr _ _ _ fun stop f => rfl
    · intro port _ l _ src _
      exact ⟨hresolve src, (h.value (g := g) src).2⟩
    · rfl
  rw [WalkState.read_artifacts, WalkState.read_artifacts, ← h.artifacts]
  exact Transaction.snd_eq_of_map_eq hbind st.artifacts

/-- A visit and the twin's visit yield the same events. -/
theorem Twin.next (h : Twin st twin) (hwired : Wired w node (g.port_sources id) node.in_ports)
    (ht : Visited g w total index id node st t) (htt : Visited g w total index id node twin tt)
    (hcache : Transparent g w node st) :
    t.events.map NodeEvent.plain = tt.events.map NodeEvent.plain ∧ t.escaped = tt.escaped ∧
      Twin t.state tt.state := by
  have hruntime : sv.runtime = sv.uncached.runtime := rfl
  have hrun : ∀ inputs, sv.run_node node inputs = sv.uncached.run_node node inputs := fun _ => rfl
  have hcache' : Transparent g w node twin := fun bound key outputs _ _ hfound => nomatch hfound
  have hbind := binding_agree hwired hruntime fun port _ src _ => h.value src
  obtain ⟨hevents, hescaped, hsame⟩ := ht.agree htt hbind hrun rfl hcache hcache'
  refine ⟨hevents, hescaped, fun other => ?_, ?_⟩
  · by_cases hne : other = id
    · subst hne
      exact hsame (h.outcome other)
    · exact (h.outcome other).frame ht htt hne
  · rw [(ht.ends hcache).artifacts, (htt.ends hcache').artifacts, ← hbind, h.read_artifacts]
    rfl

end Twin

end EmergentFlow
