import EmergentFlow.Server.StreamAgree

/-!
# Server — FailureContainment

What a streamed run guarantees whatever its nodes do. Every node in scope ends
with one event, in an order that puts producers first, and a node is attempted
exactly when all its sources have a value. That holds if and only if every visit
is safe (`walked_iff`).

A visit is safe when (1) the producers with results that it reads have them at the
wired port, since the walk reads `node_results[..][..]` outside its `try`; (2) what
the node raises is an `Exception`; and (3) its sources that had an artifact at the
start of the run still have one. Without (1) the generator ends with a `KeyError`
and the events of all later nodes are lost, without (2) with what was raised
(`missing_port_ends_stream`).
-/

namespace EmergentFlow

variable {Sub V C ε : Type} {sv : Server Sub V C ε} {g : Graph Sub} {w : WiringMap}

/-! ## What is attempted -/

/-- The event starts, skips or delivers results of the node. -/
inductive NodeEvent.Starts (id : String) : NodeEvent V ε → Prop
  | start {label current total} : Starts id (.start id label current total)

@[inherit_doc NodeEvent.Starts]
inductive NodeEvent.Skips (id : String) : NodeEvent V ε → Prop
  | skip {label reason} : Skips id (.skip id label reason)

@[inherit_doc NodeEvent.Starts]
inductive NodeEvent.Delivers (id : String) (outputs : Dict String V) : NodeEvent V ε → Prop
  | ok {label cached} : Delivers id outputs (.ok id label outputs cached)

/-- The sources of a node, in the order in which they are bound. -/
def Graph.node_sources (g : Graph Sub) (id : String) (node : Node Sub) : List PortRef :=
  node.in_ports.flatMap (g.port_sources id)

/-- The source has a value: computed in this run, or from an artifact. -/
def HasValue (g : Graph Sub) (order : List String) (results artifact : String →
    Option (Dict String V)) (src : PortRef) : Prop :=
  ∃ outputs port_name v, (if src.node_id ∈ order then results src.node_id else artifact src.node_id)
    = some outputs ∧ g.source_port_name src = .ok port_name ∧ outputs.get? port_name = some v

/-- Every source of every IN port of the node has a value. -/
def AllValues (g : Graph Sub) (order : List String) (results artifact : String →
    Option (Dict String V)) (id : String) (node : Node Sub) : Prop :=
  ∀ src ∈ g.node_sources id node, HasValue g order results artifact src

theorem Graph.feeds_of_node_sources {id : String} {node : Node Sub} {src : PortRef}
    (h : src ∈ g.node_sources id node) : g.Feeds src.node_id id := by
  obtain ⟨port, -, hsrc⟩ := List.mem_flatMap.mp h
  exact Graph.feeds_of_mem_sources hsrc

theorem AllValues.congr {order order' : List String} {id : String} {node : Node Sub}
    {results results' artifact : String → Option (Dict String V)}
    (horder : ∀ a, a ∈ order ↔ a ∈ order')
    (h : ∀ a, g.Feeds a id → a ∈ order → results a = results' a) :
    AllValues g order results artifact id node ↔ AllValues g order' results' artifact id node := by
  refine forall₂_congr fun src hsrc => ?_
  unfold HasValue
  by_cases hin : src.node_id ∈ order
  · simp only [if_pos hin, if_pos ((horder _).mp hin),
      h src.node_id (Graph.feeds_of_node_sources hsrc) hin]
  · simp only [if_neg hin, if_neg fun hin' => hin ((horder _).mpr hin')]

/-! ## Safe visits -/

/-- Up to the first source without a value, producers with results have them at the
wired port. -/
def PortsFilled (g : Graph Sub) (order : List String) (id : String) (node : Node Sub)
    (st : WalkState sv) : Prop :=
  ∀ pre src post, g.node_sources id node = pre ++ src :: post →
    (∀ s ∈ pre, HasValue g order st.node_results.get? st.artifact s) →
    ∀ outputs port_name, st.node_results.get? src.node_id = some outputs →
      g.source_port_name src = .ok port_name → ∃ v, outputs.get? port_name = some v

/-- Executed on its inputs, unless the cache answers, the node raises `Exception`s only. -/
def RaisesCaught (g : Graph Sub) (w : WiringMap) (node : Node Sub) (st : WalkState sv) : Prop :=
  ∀ bound e, st.binding g w node = .ok bound →
    (∀ key, sv.node_key node bound.upstream_hashes = some key →
      sv.cache.view st.cache key = none) →
    sv.run_node node bound.inputs = .error e → sv.catches e = true

/-- The condition on one visit, in the state before it. `artifact` is what the
artifact store held at the start of the run. -/
structure SafeVisit (g : Graph Sub) (w : WiringMap) (order : List String)
    (artifact : String → Option (Dict String V)) (id : String) (node : Node Sub)
    (st : WalkState sv) : Prop where
  ports : PortsFilled g order id node st
  caught : RaisesCaught g w node st
  /-- The artifacts of the start give all sources a value if and only if those of now do. -/
  artifacts : AllValues g order st.node_results.get? artifact id node ↔
    AllValues g order st.node_results.get? st.artifact id node

/-- Every visit of the walk is safe. -/
def SafeWalk (g : Graph Sub) (w : WiringMap) (order : List String)
    (artifact : String → Option (Dict String V)) (total : Nat) :
    Nat → List String → WalkState sv → Prop
  | _, [], _ => True
  | index, id :: rest, st =>
      (∀ node, g.nodes.get? id = some node → SafeVisit g w order artifact id node st) ∧
        SafeWalk g w order artifact total (index + 1) rest (visit g w total index id st).state

section Visit

variable {order done rest : List String} {id : String} {node : Node Sub} {st : WalkState sv}

theorem Tables.unvisited (ht : Tables done st) (hid : id ∉ done) :
    st.node_status.get? id = none := by
  cases hstatus : st.node_status.get? id with
  | none => rfl
  | some status => exact absurd ((ht.visited id).mp ⟨status, hstatus⟩) hid

/-- A node about to be visited has no results. -/
theorem Tables.fresh (ht : Tables done st) (hid : id ∉ done) :
    st.node_results.get? id = none := by
  cases hresults : st.node_results.get? id with
  | none => rfl
  | some outputs =>
      have hok := (ht.results id).mpr ⟨outputs, hresults⟩
      simp [ht.unvisited hid] at hok

/-- A producer that was visited and left no results gives no value. -/
theorem Tables.value_of_no_results (ht : Tables done st) {src : PortRef}
    (hdone : src.node_id ∈ done) (hresults : st.node_results.get? src.node_id = none) :
    st.value g src = .ok none := by
  obtain ⟨status, hstatus⟩ := (ht.visited _).mpr hdone
  have hplain := mt (ht.results src.node_id).mp (by simp [hresults])
  cases status with
  | OK | CACHED => simp [hstatus] at hplain
  | ERROR | SKIPPED => simp [WalkState.value, upstream_value, hstatus, pure, Except.pure]

/-- A producer with results gives what it left at the port. -/
theorem Tables.value_of_results (ht : Tables done st) {src : PortRef} {outputs : Dict String V}
    (hresults : st.node_results.get? src.node_id = some outputs) {port_name : String}
    (hname : g.source_port_name src = .ok port_name) :
    st.value g src = match outputs.get? port_name with
      | some v => .ok (some v)
      | none => .error (.raise (.out_port src.node_id port_name)) := by
  have hvalue : st.value g src =
      (some <$> st.node_results.value src.node_id port_name).mapError .raise := by
    rcases (ht.results src.node_id).mpr ⟨outputs, hresults⟩ with hok | hok <;>
      simp [WalkState.value, upstream_value, hok, Graph.source_value, hname, bind,
        Except.bind] <;>
      cases st.node_results.value src.node_id port_name <;> rfl
  rw [hvalue]
  cases hget : outputs.get? port_name <;>
    simp [Results.value, hresults, hget, Except.mapError, bind, Except.bind]

/-- A producer outside the walk gives what its artifact holds at the port. -/
theorem Tables.value_of_artifact (ht : Tables done st) {src : PortRef}
    (hnot : src.node_id ∉ done) {port_name : String}
    (hname : g.source_port_name src = .ok port_name) :
    st.value g src = .ok ((st.artifact src.node_id).bind (·.get? port_name)) := by
  simp [WalkState.value, upstream_value, ht.unvisited hnot, hname, bind, Except.bind,
    Except.mapError, pure, Except.pure]

/-- What a source of a node about to be visited can be: with a value, without one,
or a producer that lacks the port. -/
theorem Tables.value_cases (ht : Tables done st) (hs : Scope g w order)
    (hsplit : order = done ++ id :: rest) {src : PortRef} (hsrc : src ∈ g.node_sources id node) :
    (∃ v, st.value g src = .ok (some v) ∧
        HasValue g order st.node_results.get? st.artifact src) ∨
      (st.value g src = .ok none ∧ st.node_results.get? src.node_id = none ∧
        ¬ HasValue g order st.node_results.get? st.artifact src) ∨
      ∃ failure outputs port_name, st.value g src = .error (.raise failure) ∧
        st.node_results.get? src.node_id = some outputs ∧
        g.source_port_name src = .ok port_name ∧ outputs.get? port_name = none ∧
        ¬ HasValue g order st.node_results.get? st.artifact src := by
  have hfeeds := Graph.feeds_of_node_sources hsrc
  obtain ⟨port, -, hport⟩ := List.mem_flatMap.mp hsrc
  obtain ⟨port_name, hname⟩ := hs.source_name _ src hport
  -- a producer in the walk has run by now; one outside may have left an artifact
  by_cases hin : src.node_id ∈ order
  · have hdone := hs.producer_done hsplit hfeeds hin
    cases hresults : st.node_results.get? src.node_id with
    | none =>
        refine .inr (.inl ⟨ht.value_of_no_results hdone hresults, rfl, ?_⟩)
        simp [HasValue, if_pos hin, hresults]
    | some outputs =>
        have hhas : HasValue g order st.node_results.get? st.artifact src ↔
            ∃ v, outputs.get? port_name = some v := by
          simp [HasValue, if_pos hin, hresults, hname]
        rw [ht.value_of_results hresults hname, hhas]
        cases hget : outputs.get? port_name with
        | some v => exact .inl ⟨v, rfl, v, rfl⟩
        | none =>
            exact .inr (.inr ⟨.out_port src.node_id port_name, outputs, port_name, rfl, rfl, hname,
              hget, by simp⟩)
  · have hnot : src.node_id ∉ done := fun hmem => hin (hsplit ▸ List.mem_append_left _ hmem)
    have hhas : HasValue g order st.node_results.get? st.artifact src ↔
        ∃ v, (st.artifact src.node_id).bind (·.get? port_name) = some v := by
      simp only [HasValue, if_neg hin, hname, Except.ok.injEq, Option.bind_eq_some_iff]
      constructor
      · rintro ⟨outputs, port_name', v, houtputs, rfl, hv⟩
        exact ⟨v, outputs, houtputs, hv⟩
      · rintro ⟨v, outputs, houtputs, hv⟩
        exact ⟨outputs, port_name, v, houtputs, rfl, hv⟩
    rw [ht.value_of_artifact hnot hname, hhas]
    cases (st.artifact src.node_id).bind (·.get? port_name) with
    | some v => exact .inl ⟨v, rfl, v, rfl⟩
    | none => exact .inr (.inl ⟨rfl, ht.fresh hnot, by simp⟩)

theorem Tables.hasValue_iff (ht : Tables done st) (hs : Scope g w order)
    (hsplit : order = done ++ id :: rest) {src : PortRef} (hsrc : src ∈ g.node_sources id node) :
    HasValue g order st.node_results.get? st.artifact src ↔
      ∃ v, st.value g src = .ok (some v) := by
  rcases ht.value_cases hs hsplit hsrc with ⟨v, hv, hhas⟩ | ⟨hv, -, hnot⟩ |
    ⟨failure, outputs, port_name, hv, -, -, -, hnot⟩
  · exact ⟨fun _ => ⟨v, hv⟩, fun _ => hhas⟩
  · simp [hv, hnot]
  · simp [hv, hnot]

/-- A node that is bound has all values. -/
theorem Tables.bound_of_ok (ht : Tables done st) (hs : Scope g w order)
    (hsplit : order = done ++ id :: rest) (hnode : g.nodes.get? id = some node) {bound : Bound V}
    (hbind : st.binding g w node = .ok bound) :
    AllValues g order st.node_results.get? st.artifact id node ∧
      PortsFilled g order id node st := by
  have hvalue : ∀ src ∈ g.node_sources id node, ∃ v, st.value g src = .ok (some v) := by
    intro src hsrc
    obtain ⟨port, hport, hmem⟩ := List.mem_flatMap.mp hsrc
    exact value_of_bind_ports (hs.wired id node hnode) hbind port hport src hmem
  refine ⟨fun src hsrc => (ht.hasValue_iff hs hsplit hsrc).mpr (hvalue src hsrc), ?_⟩
  intro pre src post hsources _ outputs port_name houtputs hname
  obtain ⟨v, hv⟩ := hvalue src (by simp [hsources])
  obtain ⟨port_name', hname', hget⟩ := ht.source_value houtputs hv
  obtain rfl := Except.ok.inj (hname.symm.trans hname')
  exact ⟨v, hget⟩

/-- A node that is skipped lacks a value, but no producer lacks a port before that. -/
theorem Tables.bound_of_skip (ht : Tables done st) (hs : Scope g w order)
    (hsplit : order = done ++ id :: rest) (hnode : g.nodes.get? id = some node)
    {reason : SkipReason} (hbind : st.binding g w node = .error (.skip reason)) :
    ¬ AllValues g order st.node_results.get? st.artifact id node ∧
      PortsFilled g order id node st := by
  obtain ⟨pre, src, post, hsources, hpre, hstop⟩ :=
    bind_ports_eq_error (hs.wired id node hnode) hbind
  have hsplits : g.node_sources id node = pre ++ src :: post := hsources
  have hsrc : src ∈ g.node_sources id node := by simp [hsplits]
  rcases ht.value_cases hs hsplit hsrc with ⟨v, hv, -⟩ | ⟨-, hempty, hnot⟩ |
    ⟨failure, outputs, port_name, hv, -⟩
  · simp [hv] at hstop
  · refine ⟨fun hall => hnot (hall src hsrc), ?_⟩
    intro pre' src' post' hsplits' hpre' outputs port_name houtputs hname
    -- the source is the first without a value, or comes before it
    have hbefore : src' ∈ pre ∨ src' = src := by
      rcases List.append_eq_append_iff.mp (hsplits'.symm.trans hsplits) with
        ⟨l, rfl, hl⟩ | ⟨l, rfl, hl⟩
      · rcases List.cons_eq_append_iff.mp hl with ⟨rfl, hl⟩ | ⟨l', rfl, -⟩
        · exact .inr (List.cons.inj hl).1
        · exact .inl (by simp)
      · rcases List.cons_eq_append_iff.mp hl with ⟨rfl, hl⟩ | ⟨l', rfl, -⟩
        · exact .inr (List.cons.inj hl).1.symm
        · exact absurd (hpre' src (by simp)) hnot
    rcases hbefore with hmem | rfl
    · obtain ⟨v, hv⟩ := hpre src' hmem
      obtain ⟨port_name', hname', hget⟩ := ht.source_value houtputs hv
      obtain rfl := Except.ok.inj (hname.symm.trans hname')
      exact ⟨v, hget⟩
    · rw [hempty] at houtputs
      cases houtputs
  · simp [hv] at hstop

/-- A binding that raises found a producer without the port. -/
theorem Tables.not_portsFilled (ht : Tables done st) (hs : Scope g w order)
    (hsplit : order = done ++ id :: rest) (hnode : g.nodes.get? id = some node)
    {failure : LookupFailure} (hbind : st.binding g w node = .error (.raise failure)) :
    ¬ PortsFilled g order id node st := by
  obtain ⟨pre, src, post, hsources, hpre, hstop⟩ :=
    bind_ports_eq_error (hs.wired id node hnode) hbind
  have hsplits : g.node_sources id node = pre ++ src :: post := hsources
  have hsrc : src ∈ g.node_sources id node := by simp [hsplits]
  intro hfilled
  rcases ht.value_cases hs hsplit hsrc with ⟨v, hv, -⟩ | ⟨hv, -⟩ |
    ⟨failure, outputs, port_name, -, houtputs, hname, hget, -⟩
  · simp [hv] at hstop
  · simp [hv] at hstop
  · have hhas : ∀ s ∈ pre, HasValue g order st.node_results.get? st.artifact s := by
      intro s hpres
      have hmem : s ∈ g.node_sources id node := by simp [hsplits, hpres]
      exact (ht.hasValue_iff hs hsplit hmem).mpr (hpre s hpres)
    obtain ⟨v, hv⟩ := hfilled pre src post hsplits hhas outputs port_name houtputs hname
    rw [hget] at hv
    cases hv

end Visit

/-! ## One visit -/

section Step

variable {order done rest : List String} {id : String} {node : Node Sub} {st : WalkState sv}
  {artifact : String → Option (Dict String V)} {events : List (NodeEvent V ε)}
  {total index : Nat} {t : Trace sv}

theorem Ran.terminal {bound : Bound V} {event : NodeEvent V ε} {st' : WalkState sv}
    (hran : Ran st node id bound event st') : event.terminal = some id := by
  cases hran <;> rfl

theorem Ran.node_id {bound : Bound V} {event : NodeEvent V ε} {st' : WalkState sv}
    (hran : Ran st node id bound event st') : event.node_id = id := by
  cases hran <;> rfl

theorem Ran.not_starts {bound : Bound V} {event : NodeEvent V ε} {st' : WalkState sv}
    (hran : Ran st node id bound event st') : ¬ event.Starts id ∧ ¬ event.Skips id := by
  cases hran <;> exact ⟨nofun, nofun⟩

/-- The event of a run of the node delivers what is recorded. -/
theorem Ran.delivers {bound : Bound V} {event : NodeEvent V ε} {st' : WalkState sv}
    (hran : Ran st node id bound event st') (hnone : st.node_results.get? id = none)
    (outputs : Dict String V) :
    event.Delivers id outputs ↔ st'.node_results.get? id = some outputs := by
  cases hran with
  | failed miss run caught kept =>
      rw [WalkState.fail, hnone]
      constructor
      · intro hdelivers
        cases hdelivers
      · intro hsome
        cases hsome
  | hit hash found kept | fresh miss run stored =>
      rw [WalkState.record, Dict.get?_set_self, Option.some.injEq]
      exact ⟨fun h => by cases h; rfl, fun h => by rw [h]; exact .ok⟩

/-- The events of a visit are about the node. -/
theorem Visited.about (ht : Visited g w total index id node st t) :
    ∀ event ∈ t.events, event.node_id = id := by
  intro event hmem
  cases ht with
  | escaped bind => simp at hmem
  | skipped bind | interrupted bind interrupted =>
      rw [List.mem_singleton.mp hmem]
      rfl
  | ran bind ran =>
      rcases List.mem_cons.mp hmem with rfl | hmem
      · rfl
      · rw [List.mem_singleton.mp hmem, ran.node_id]

/-- What the events of a visit that goes on say. -/
structure Reported (g : Graph Sub) (order : List String) (id : String) (node : Node Sub)
    (st : WalkState sv) (t : Trace sv) : Prop where
  terminal : t.events.filterMap NodeEvent.terminal = [id]
  starts : (∃ event ∈ t.events, event.Starts id) ↔
    AllValues g order st.node_results.get? st.artifact id node
  skips : (∃ event ∈ t.events, event.Skips id) ↔
    ¬ AllValues g order st.node_results.get? st.artifact id node
  delivers : st.node_results.get? id = none → ∀ outputs,
    (∃ event ∈ t.events, event.Delivers id outputs) ↔
      t.state.node_results.get? id = some outputs

/-- A visit goes on if and only if no port is missing and nothing is let through. -/
theorem Visited.stays_iff (ht : Visited g w total index id node st t) (htables : Tables done st)
    (hs : Scope g w order) (hsplit : order = done ++ id :: rest)
    (hnode : g.nodes.get? id = some node) :
    (t.escaped = none ↔ PortsFilled g order id node st ∧ RaisesCaught g w node st) ∧
      (t.escaped = none → Reported g order id node st t) := by
  cases ht with
  | escaped bind =>
      have hnot := htables.not_portsFilled hs hsplit hnode bind
      exact ⟨⟨nofun, fun h => absurd h.1 hnot⟩, nofun⟩
  | skipped bind =>
      obtain ⟨hnot, hfilled⟩ := htables.bound_of_skip hs hsplit hnode bind
      have hcaught : RaisesCaught g w node st := by
        intro bound e hbound
        rw [bind] at hbound
        cases hbound
      refine ⟨⟨fun _ => ⟨hfilled, hcaught⟩, fun _ => rfl⟩, fun _ => ⟨rfl, ?_, ?_, ?_⟩⟩
      · refine ⟨?_, fun hall => absurd hall hnot⟩
        rintro ⟨e, he, h⟩
        cases List.mem_singleton.mp he
        cases h
      · exact ⟨fun _ => hnot, fun _ => ⟨_, List.mem_cons_self, .skip⟩⟩
      · intro hnone outputs
        rw [show st.node_results.get? id = none from hnone]
        refine ⟨?_, nofun⟩
        rintro ⟨e, he, h⟩
        cases List.mem_singleton.mp he
        cases h
  | @interrupted bound e cache bind interrupted =>
      refine ⟨⟨nofun, fun h => ?_⟩, nofun⟩
      have hcaught := h.2 bound e bind interrupted.miss interrupted.run
      rw [interrupted.uncaught] at hcaught
      cases hcaught
  | @ran bound event st' bind ran =>
      obtain ⟨hall, hfilled⟩ := htables.bound_of_ok hs hsplit hnode bind
      have hcaught : RaisesCaught g w node st := by
        intro bound' e hbound hmiss hrun
        obtain rfl := Except.ok.inj (bind.symm.trans hbound)
        cases ran with
        | failed miss run caught kept =>
            obtain rfl := Except.error.inj (run.symm.trans hrun)
            exact caught
        | hit hash found kept =>
            have hnone := (hmiss _ hash).symm.trans found
            cases hnone
        | fresh miss run stored =>
            have herror := run.symm.trans hrun
            cases herror
      refine ⟨⟨fun _ => ⟨hfilled, hcaught⟩, fun _ => rfl⟩, fun _ => ⟨?_, ?_, ?_, ?_⟩⟩
      · rw [List.filterMap_cons_none rfl, List.filterMap_cons_some ran.terminal,
          List.filterMap_nil]
      · exact ⟨fun _ => hall, fun _ => ⟨_, List.mem_cons_self, .start⟩⟩
      · refine ⟨?_, fun hnot => absurd hall hnot⟩
        rintro ⟨e, he, h⟩
        rcases List.mem_cons.mp he with rfl | he
        · cases h
        · rw [List.mem_singleton.mp he] at h
          exact absurd h ran.not_starts.2
      · intro hnone outputs
        rw [← ran.delivers hnone]
        refine ⟨?_, fun h => ⟨event, by simp, h⟩⟩
        rintro ⟨e, he, h⟩
        rcases List.mem_cons.mp he with rfl | he
        · cases h
        · rwa [List.mem_singleton.mp he] at h

/-! ## A walk of safe visits -/

/-- The walk has visited `done`, yielding `events`; `artifact` is what the
artifact store held at the start. -/
structure Progress (g : Graph Sub) (order : List String)
    (artifact : String → Option (Dict String V)) (done : List String) (st : WalkState sv)
    (events : List (NodeEvent V ε)) : Prop where
  tables : Tables done st
  /-- One terminal event for each node, in visiting order. -/
  terminal : events.filterMap NodeEvent.terminal = done
  about : ∀ event ∈ events, event.node_id ∈ done
  /-- The ok events carry the results. -/
  ok : ∀ id outputs, (∃ event ∈ events, event.Delivers id outputs) ↔
    st.node_results.get? id = some outputs
  /-- A node is attempted exactly when its sources have values. -/
  attempted : ∀ id ∈ done, ∀ node, g.nodes.get? id = some node →
    ((∃ event ∈ events, event.Starts id) ↔
      AllValues g order st.node_results.get? artifact id node)
  /-- And skipped otherwise. -/
  skipped : ∀ id ∈ done, ∀ node, g.nodes.get? id = some node →
    ((∃ event ∈ events, event.Skips id) ↔
      ¬ AllValues g order st.node_results.get? artifact id node)

/-- A kind of event about one node is in two lists of events when it is in
the one that is about that node. -/
theorem exists_mem_append {old new : List (NodeEvent V ε)} (hold : ∀ e ∈ old, e.node_id ≠ id)
    (hnew : ∀ e ∈ new, e.node_id = id) {P : NodeEvent V ε → Prop} {other : String}
    (hP : ∀ e, P e → e.node_id = other) : (∃ e ∈ old ++ new, P e) ↔
      if other = id then ∃ e ∈ new, P e else ∃ e ∈ old, P e := by
  simp only [List.mem_append]
  split
  · rename_i heq
    constructor
    · rintro ⟨e, he, h⟩
      exact ⟨e, he.resolve_left fun he => hold e he ((hP e h).trans heq), h⟩
    · rintro ⟨e, he, h⟩
      exact ⟨e, .inr he, h⟩
  · rename_i hne
    constructor
    · rintro ⟨e, he, h⟩
      exact ⟨e, he.resolve_right fun he => hne ((hP e h).symm.trans (hnew e he)), h⟩
    · rintro ⟨e, he, h⟩
      exact ⟨e, .inl he, h⟩

theorem NodeEvent.Starts.node_id {event : NodeEvent V ε} (h : event.Starts id) :
    event.node_id = id := by
  cases h
  rfl

theorem NodeEvent.Skips.node_id {event : NodeEvent V ε} (h : event.Skips id) :
    event.node_id = id := by
  cases h
  rfl

theorem NodeEvent.Delivers.node_id {event : NodeEvent V ε} {outputs : Dict String V}
    (h : event.Delivers id outputs) : event.node_id = id := by
  cases h
  rfl

/-- Visiting a node changes nothing about the values of those met so far. -/
theorem Visited.allValues (ht : Visited g w total index id node st t) (hs : Scope g w order)
    (hsplit : order = done ++ id :: rest) {other : String} (hother : other ∈ done ++ [id])
    (node' : Node Sub) : AllValues g order t.state.node_results.get? artifact other node' ↔
      AllValues g order st.node_results.get? artifact other node' := by
  apply AllValues.congr fun a => Iff.rfl
  intro a ha hin
  -- a producer of a node already met is met too, and keeps its results
  have hdone : a ∈ done := by
    rcases List.mem_append.mp hother with hother | hother
    · exact hs.producer_of_done hsplit hother ha hin
    · rw [List.mem_singleton.mp hother] at ha
      exact hs.producer_done hsplit ha hin
  exact (ht.frame fun heq => hs.fresh hsplit (heq ▸ hdone)).2.1

/-- A safe visit makes progress. -/
theorem Progress.next (hp : Progress g order artifact done st events) (hs : Scope g w order)
    (hsplit : order = done ++ id :: rest) (hnode : g.nodes.get? id = some node)
    (hsafe : SafeVisit g w order artifact id node st)
    (ht : Visited g w total index id node st t) : t.escaped = none ∧
      Progress g order artifact (done ++ [id]) t.state (events ++ t.events) := by
  obtain ⟨hiff, hreports⟩ := ht.stays_iff hp.tables hs hsplit hnode
  have hstay : t.escaped = none := hiff.mpr ⟨hsafe.ports, hsafe.caught⟩
  have hreported := hreports hstay
  have hid : id ∉ done := hs.fresh hsplit
  have hold : ∀ e ∈ events, e.node_id ≠ id := fun e he heq => hid (heq ▸ hp.about e he)
  refine ⟨hstay, ht.tables hstay hid hp.tables, ?_, ?_, ?_, ?_, ?_⟩
  · rw [List.filterMap_append, hp.terminal, hreported.terminal]
  · intro e he
    rcases List.mem_append.mp he with he | he
    · exact List.mem_append_left _ (hp.about e he)
    · rw [ht.about e he]
      simp
  · intro other outputs
    rw [exists_mem_append hold ht.about fun e h => h.node_id]
    split
    · rename_i heq
      rw [heq]
      exact hreported.delivers (hp.tables.fresh hid) outputs
    · rename_i hne
      rw [(ht.frame hne).2.1]
      exact hp.ok other outputs
  · intro other hother node' hnode'
    rw [ht.allValues hs hsplit hother, exists_mem_append hold ht.about fun e h => h.node_id]
    split
    · rename_i heq
      subst heq
      obtain rfl := Option.some.inj (hnode.symm.trans hnode')
      rw [hsafe.artifacts]
      exact hreported.starts
    · rename_i hne
      exact hp.attempted other (by simpa [hne] using hother) node' hnode'
  · intro other hother node' hnode'
    rw [ht.allValues hs hsplit hother, exists_mem_append hold ht.about fun e h => h.node_id]
    split
    · rename_i heq
      subst heq
      obtain rfl := Option.some.inj (hnode.symm.trans hnode')
      rw [hsafe.artifacts]
      exact hreported.skips
    · rename_i hne
      exact hp.skipped other (by simpa [hne] using hother) node' hnode'

end Step

/-- A safe walk visits all its nodes. -/
theorem Progress.walk {order : List String} {artifact : String → Option (Dict String V)}
    (hs : Scope g w order) {total : Nat} (rest : List String) {done : List String}
    {st : WalkState sv} {events : List (NodeEvent V ε)} {index : Nat}
    (hsplit : order = done ++ rest) (hp : Progress g order artifact done st events)
    (hsafe : SafeWalk g w order artifact total index rest st) :
    (walk g w total index rest st).escaped = none ∧
      Progress g order artifact order (walk g w total index rest st).state
        (events ++ (walk g w total index rest st).events) := by
  induction rest generalizing done st events index with
  | nil =>
      rw [List.append_nil] at hsplit
      subst hsplit
      exact ⟨rfl, by simpa [EmergentFlow.walk] using hp⟩
  | cons id rest ih =>
      obtain ⟨node, hnode⟩ := hs.node id (hsplit ▸ by simp)
      obtain ⟨hvisit, hrest⟩ := hsafe
      obtain ⟨hstay, hnext⟩ := hp.next hs hsplit hnode (hvisit node hnode)
        (visit_cases w st hnode total index)
      rw [EmergentFlow.walk]
      simp only [hstay]
      rw [← List.append_assoc]
      exact ih (by simp [hsplit]) hnext hrest

/-! ## Only safe walks do -/

section Converse

variable {order : List String} {artifact : String → Option (Dict String V)}

/-- What a walk leaves alone, and what its events are about. -/
structure Bystander (rest : List String) (st : WalkState sv) (t : Trace sv) : Prop where
  results : ∀ other, other ∉ rest → t.state.node_results.get? other = st.node_results.get? other
  about : ∀ event ∈ t.events, event.node_id ∈ rest

theorem walk_bystander (g : Graph Sub) (w : WiringMap) (total index : Nat) (rest : List String)
    (st : WalkState sv) : Bystander rest st (walk g w total index rest st) := by
  induction rest generalizing st index with
  | nil => exact ⟨fun other _ => rfl, fun event he => by cases he⟩
  | cons id rest ih =>
      have hvisit : Bystander [id] st (visit g w total index id st) := by
        cases hnode : g.nodes.get? id with
        | none =>
            simp only [visit, hnode]
            exact ⟨fun other _ => rfl, fun event he => by cases he⟩
        | some node =>
            have ht := visit_cases w st hnode total index
            refine ⟨fun other hne => (ht.frame (by simpa using hne)).2.1, fun event he => ?_⟩
            rw [ht.about event he]
            simp
      have hrest := ih (index + 1) (visit g w total index id st).state
      rw [EmergentFlow.walk]
      cases hesc : (visit g w total index id st).escaped with
      | some escaped =>
          refine ⟨fun other hother => hvisit.results other (by simp_all), fun event he => ?_⟩
          exact List.mem_cons.mpr (.inl (by simpa using hvisit.about event he))
      | none =>
          refine ⟨fun other hother => ?_, fun event he => ?_⟩
          · simp only [List.mem_cons, not_or] at hother
            exact (hrest.results other hother.2).trans (hvisit.results other (by simp [hother.1]))
          · rcases List.mem_append.mp he with he | he
            · exact List.mem_cons.mpr (.inl (by simpa using hvisit.about event he))
            · exact List.mem_cons_of_mem _ (hrest.about event he)

/-- In a walk to the end that attempts exactly the nodes with all values, every
visit is safe. -/
theorem safeWalk_of_attempted (hs : Scope g w order) {total : Nat} (rest : List String)
    {done : List String} {st : WalkState sv} {index : Nat} (hsplit : order = done ++ rest)
    (htables : Tables done st) (hstay : (walk g w total index rest st).escaped = none)
    (hattempted : ∀ id ∈ rest, ∀ node, g.nodes.get? id = some node →
      ((∃ event ∈ (walk g w total index rest st).events, event.Starts id) ↔
        AllValues g order (walk g w total index rest st).state.node_results.get? artifact id
          node)) :
    SafeWalk g w order artifact total index rest st := by
  induction rest generalizing done st index with
  | nil => trivial
  | cons id rest ih =>
      obtain ⟨node, hnode⟩ := hs.node id (hsplit ▸ by simp)
      have ht := visit_cases w st hnode total index
      have hwalk := walk_bystander g w total (index + 1) rest (visit g w total index id st).state
      have hfresh : id ∉ rest := by
        have hnodup := hs.nodup
        rw [hsplit, List.nodup_append] at hnodup
        exact (List.nodup_cons.mp hnodup.2.1).1
      cases hesc : (visit g w total index id st).escaped with
      | some escaped =>
          rw [EmergentFlow.walk, hesc] at hstay
          rw [show (visit g w total index id st).escaped = none from hstay] at hesc
          cases hesc
      | none =>
          simp only [EmergentFlow.walk, hesc] at hstay hattempted
          obtain ⟨hiff, hreports⟩ := ht.stays_iff htables hs hsplit hnode
          obtain ⟨hfilled, hcaught⟩ := hiff.mp hesc
          refine ⟨fun node' hnode' => ?_, ?_⟩
          · obtain rfl := Option.some.inj (hnode.symm.trans hnode')
            refine ⟨hfilled, hcaught, ?_⟩
            -- the events of the later nodes are not about this one
            have hstarts := hattempted id List.mem_cons_self node hnode
            have hlater : ∀ e ∈ (walk g w total (index + 1) rest
                (visit g w total index id st).state).events, ¬ e.Starts id :=
              fun e he h => hfresh (h.node_id ▸ hwalk.about e he)
            simp only [List.mem_append] at hstarts
            rw [← (hreports hesc).starts]
            have hvalues : AllValues g order (walk g w total (index + 1) rest
                (visit g w total index id st).state).state.node_results.get? artifact id node ↔
                  AllValues g order st.node_results.get? artifact id node := by
              apply AllValues.congr fun a => Iff.rfl
              intro a ha hin
              have hdone := hs.producer_done hsplit ha hin
              have hne : a ≠ id := fun heq => hs.fresh hsplit (heq ▸ hdone)
              have hrest : a ∉ rest := by
                have hnodup := hs.nodup
                rw [hsplit, List.nodup_append] at hnodup
                exact fun hmem => hnodup.2.2 a hdone a (List.mem_cons_of_mem _ hmem) rfl
              exact (hwalk.results a hrest).trans (ht.frame hne).2.1
            rw [← hvalues, ← hstarts]
            constructor
            · rintro ⟨e, he | he, h⟩
              · exact ⟨e, he, h⟩
              · exact absurd h (hlater e he)
            · rintro ⟨e, he, h⟩
              exact ⟨e, .inl he, h⟩
          · apply ih (by simp [hsplit]) (ht.tables hesc (hs.fresh hsplit) htables) hstay
            intro other hother node' hnode'
            rw [← hattempted other (List.mem_cons_of_mem _ hother) node' hnode']
            simp only [List.mem_append]
            constructor
            · rintro ⟨e, he, h⟩
              exact ⟨e, .inr he, h⟩
            · rintro ⟨e, he | he, h⟩
              · exact absurd (h.node_id.symm.trans (ht.about e he)) fun heq => hfresh (heq ▸ hother)
              · exact ⟨e, he, h⟩

end Converse

/-! ## The law of a run -/

/-- What the artifact store holds for a node id. -/
def Server.artifact (sv : Server Sub V C ε) (artifacts : sv.artifacts.State) (id : String) :
    Option (Dict String V) :=
  sv.artifacts.view artifacts (safe_key sv.hashing.sha256 id)

/-- All visits of the run are safe. -/
def SafeStream (sv : Server Sub V C ε) (g : Graph Sub) (only : Option (List String))
    (cache : sv.cache.State) (artifacts : sv.artifacts.State) : Prop :=
  ∀ order w, sv.prepare g only = .ok (order, w) →
    SafeWalk g w order (sv.artifact artifacts) order.length 1 order
      ({ cache, artifacts } : WalkState sv)

/-- The nodes that a run ended, in the order of its events. -/
def Trace.visited (t : Trace sv) : List String := t.events.filterMap NodeEvent.terminal

/-- The run, which started with these artifacts, gives every node its due. -/
structure Walked (sv : Server Sub V C ε) (g : Graph Sub) (only : Option (List String))
    (artifacts : sv.artifacts.State) (t : Trace sv) : Prop where
  /-- The generator runs to its end. -/
  complete : t.escaped = none
  /-- Every node in scope ends with exactly one event. -/
  once : t.visited.Nodup
  scope : ∀ id, id ∈ t.visited ↔
    (∃ node, g.nodes.get? id = some node) ∧ ∀ ids ∈ only, id ∈ ids
  /-- Producers come first. -/
  topological : ∀ pre id post, t.visited = pre ++ id :: post →
    ∀ a, g.Feeds a id → a ∈ t.visited → a ∈ pre
  ok : ∀ id outputs, (∃ event ∈ t.events, event.Delivers id outputs) ↔
    t.state.node_results.get? id = some outputs
  /-- A node is attempted exactly when every source of its IN ports has a
  value, and skipped otherwise. -/
  attempted : ∀ id ∈ t.visited, ∀ node, g.nodes.get? id = some node →
    ((∃ event ∈ t.events, event.Starts id) ↔
      AllValues g t.visited t.state.node_results.get? (sv.artifact artifacts) id node)
  skipped : ∀ id ∈ t.visited, ∀ node, g.nodes.get? id = some node →
    ((∃ event ∈ t.events, event.Skips id) ↔
      ¬ AllValues g t.visited t.state.node_results.get? (sv.artifact artifacts) id node)

theorem Progress.init (sv : Server Sub V C ε) (g : Graph Sub) (order : List String)
    (cache : sv.cache.State) (artifacts : sv.artifacts.State) :
    Progress g order (sv.artifact artifacts) [] ({ cache, artifacts } : WalkState sv) [] where
  tables := Tables.init cache artifacts
  terminal := rfl
  about := nofun
  ok id outputs := by simp
  attempted := nofun
  skipped := nofun

/-- A run gives every node its due if and only if all its visits are safe. -/
theorem walked_iff (hv : g.Valid) {only : Option (List String)} {cache : sv.cache.State}
    {artifacts : sv.artifacts.State} {t : Trace sv}
    (hrun : sv.stream g only cache artifacts = .ok t) :
    Walked sv g only artifacts t ↔ SafeStream sv g only cache artifacts := by
  obtain ⟨⟨order, w⟩, hprepare, ht⟩ := Checks.bind_eq_ok.mp hrun
  obtain ⟨hs, hmem⟩ := Server.prepare_scope hv hprepare
  simp only [pure, Except.pure, Except.ok.injEq] at ht
  constructor
  · intro hwalked order' w' hprepare'
    obtain ⟨rfl, rfl⟩ := Prod.mk.inj (Except.ok.inj (hprepare.symm.trans hprepare'))
    have hin : ∀ id, id ∈ order ↔ id ∈ t.visited := fun id =>
      (hmem id).trans (hwalked.scope id).symm
    subst ht
    apply safeWalk_of_attempted hs order rfl (Tables.init cache artifacts) hwalked.complete
    intro id hid node hnode
    rw [hwalked.attempted id ((hin id).mp hid) node hnode]
    exact AllValues.congr (fun a => (hin a).symm) fun a _ _ => rfl
  · intro hsafe
    obtain ⟨hstay, hp⟩ := Progress.walk hs order rfl (Progress.init sv g order cache artifacts)
      (hsafe order w hprepare)
    rw [List.nil_append, ht] at hp
    rw [ht] at hstay
    have hvisited : t.visited = order := hp.terminal
    exact ⟨hstay, hvisited ▸ hs.nodup, fun id => hvisited ▸ hmem id, hvisited ▸ hs.producers,
      hp.ok, hvisited ▸ hp.attempted, hvisited ▸ hp.skipped⟩

end EmergentFlow
