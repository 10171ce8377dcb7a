import EmergentFlow.Server.ExecuteSimulation
import EmergentFlow.Server.FailureIndependence

/-!
# Server — ExecuteRefinement

Whether the stream refines `ef.execute` on a graph, whatever its nodes do.
It does exactly when no run gets to a `layout.composite` node: `execute`
runs its subgraph, and the server calls the container's own `execute`,
which raises on purpose (`stream_refines_execute_iff`).
-/

namespace EmergentFlow

variable {V C ε : Type} {d : Deployment V C ε} {n : Nat} {g m : Graph (Nested n)}
  {params : Option (Dict String ParamValue)} {w : WiringMap} {order : List String}

/-! ## The condition -/

/-- A node that neither side can call: its type is not registered, or
declares several kinds of client. -/
def Deployment.Undispatchable (d : Deployment V C ε) (node : Node (Nested n)) : Prop :=
  node.type ≠ COMPOSITE_NODE_TYPE ∧ ∀ definition, d.runtime.registry node.type = some definition →
    1 < definition.required_client_kinds.length

/-- No run of the graph gets to a composite: the guards reject it, or each
composite comes after a node that cannot be called. -/
def Deployment.AvoidsComposites (d : Deployment V C ε) (n : Nat) (g : Graph (Nested n))
    (params : Option (Dict String ParamValue)) : Prop :=
  ∀ m order w, d.Accepts n g params m order w → ∀ pre id post, order = pre ++ id :: post →
    ∀ node, m.nodes.get? id = some node → node.type = COMPOSITE_NODE_TYPE →
      ∃ other ∈ pre, ∃ node', m.nodes.get? other = some node' ∧ d.Undispatchable node'

/-! ## The condition is enough -/

section Enough

variable {call : Behaviours V C ε}

theorem Deployment.Undispatchable.run_node {node : Node (Nested n)} (h : d.Undispatchable node)
    (inputs : Dict String V) : ∃ cause, (d.executor call n).run_node node inputs = .error cause := by
  have hruntime : (d.executor call n).runtime = d.runtime := by cases n <;> rfl
  rw [Executor.run_node, if_neg h.1, hruntime]
  cases hdef : d.runtime.registry node.type with
  | none => exact ⟨_, rfl⟩
  | some definition =>
      have hkinds := h.2 definition hdef
      cases hlist : definition.required_client_kinds with
      | nil => simp [hlist] at hkinds
      | cons kind rest =>
          cases rest with
          | nil => simp [hlist] at hkinds
          | cons second rest =>
              exact ⟨.many_clients node.type, by simp [dispatch, hlist, bind, Except.bind]⟩

/-- The walk does not get past such a node. -/
theorem Deployment.Undispatchable.walk {other : String} {node : Node (Nested n)}
    (h : d.Undispatchable node) (hnode : m.nodes.get? other = some node) {pre : List String}
    (hmem : other ∈ pre) (results : Results V) :
    ¬ ∃ r, (d.executor call n).walk m w Dict.empty pre results = .ok r := by
  rintro ⟨r, hr⟩
  induction pre generalizing results with
  | nil => cases hmem
  | cons id pre ih =>
      rw [Executor.walk_cons] at hr
      obtain ⟨outputs, hvisit, hrest⟩ := Checks.bind_eq_ok.mp hr
      rcases List.mem_cons.mp hmem with rfl | hmem
      · rw [Checks.mapError_eq_ok, Executor.visit_found hnode] at hvisit
        obtain ⟨inputs, -, hrun⟩ := Checks.bind_eq_ok.mp hvisit
        obtain ⟨cause, hcause⟩ : ∃ cause, (d.executor call n).run_node node inputs =
            .error cause := h.run_node inputs
        rw [hcause] at hrun
        cases hrun
      · exact ih hmem _ hrest

theorem Deployment.Accepts.plain (h : d.Accepts n g params m order w)
    (havoids : d.AvoidsComposites n g params) : d.Plain call m w order Dict.empty := by
  intro pre id post hsplit hreached node hnode htype
  obtain ⟨other, hmem, node', hnode', hundispatchable⟩ :=
    havoids m order w h pre id post hsplit node hnode htype
  exact hundispatchable.walk hnode' hmem Dict.empty hreached

/-- Runs that avoid composites agree. -/
theorem Deployment.Accepts.agree (h : d.Accepts n g params m order w) (hv : g.Valid)
    (hplain : d.Plain call m w order Dict.empty) (artifacts : d.artifacts.State) :
    Agree (d.executor call n) m w [] order Dict.empty (walk m w order.length 1 order
      ({ cache := (), artifacts } : WalkState (d.server call n))) := by
  obtain ⟨hs, hall⟩ := h.scope hv
  exact Mirrors.walk hs hall order (List.append_nil order).symm ⟨rfl, by simp⟩ hplain

theorem Deployment.AvoidsComposites.refines (havoids : d.AvoidsComposites n g params)
    (hv : g.Valid) (artifacts : d.artifacts.State) : Refines d call n g params artifacts := by
  constructor
  · intro results hresults
    have hnot : ∀ error, d.execute call n g params ≠ .error (.rejected error) := by
      intro error heq
      rw [hresults] at heq
      cases heq
    obtain ⟨m, order, w, h⟩ := Deployment.accepts_of_execute hnot
    have hwalk := h.execute.symm.trans hresults
    refine ⟨m, order, _, h.materialized, h.sorted, h.stream artifacts, ?_⟩
    cases h.agree hv (h.plain havoids) artifacts with
    | ok walk complete mirrors clean endings =>
        rw [hwalk] at walk
        cases walk
        exact ⟨complete, endings⟩
    | failed walk failure =>
        rw [hwalk] at walk
        cases walk
  · intro id cause hfailed
    have hnot : ∀ error, d.execute call n g params ≠ .error (.rejected error) := by
      intro error heq
      rw [hfailed] at heq
      cases heq
    obtain ⟨m, order, w, h⟩ := Deployment.accepts_of_execute hnot
    have hwalk := h.execute.symm.trans hfailed
    refine ⟨_, h.stream artifacts, ?_⟩
    cases h.agree hv (h.plain havoids) artifacts with
    | ok walk complete mirrors clean endings =>
        rw [hwalk] at walk
        cases walk
    | failed walk failure =>
        rw [hwalk] at walk
        cases walk
        exact failure

end Enough

/-! ## What `execute` never raises

The executor does not call the definition of a composite, at any depth, so
none of the ways in which that call fails is a cause of its failures. -/

section Causes

variable {Sub : Type} {rt : Runtime V} {call : Behaviours V C ε} {clients : Clients C}

/-- No run of a composite calls its definition. -/
def Executor.Sound (x : Executor Sub V C ε) : Prop :=
  ∀ node inputs cause, x.composite node inputs = .error cause → cause ∉ container_failures

theorem Executor.Sound.run_node {x : Executor Sub V C ε} (h : x.Sound) {node : Node Sub}
    {inputs : Dict String V} {cause : Failure ε} (hrun : x.run_node node inputs = .error cause) :
    cause ∉ container_failures := by
  unfold Executor.run_node at hrun
  split at hrun
  · exact h node inputs cause hrun
  · rename_i htype
    cases hdef : x.runtime.registry node.type with
    | none =>
        rw [hdef] at hrun
        cases hrun
        simpa [container_failures] using htype
    | some definition =>
        rw [hdef] at hrun
        have hdispatch : dispatch x.call x.clients definition node inputs = .error cause := hrun
        have hexecute : ∀ client, definition_execute x.call node inputs client = .error cause →
            cause ∉ container_failures := by
          intro client hcall
          rw [definition_execute, if_neg htype] at hcall
          obtain ⟨e, -, rfl⟩ := Checks.mapError_eq_error.mp hcall
          simp [container_failures]
        cases hkinds : definition.required_client_kinds with
        | nil =>
            rw [dispatch, hkinds] at hdispatch
            exact hexecute none hdispatch
        | cons kind rest =>
            cases rest with
            | nil =>
                rw [dispatch, hkinds] at hdispatch
                exact hexecute (x.clients.for_kind kind) hdispatch
            | cons second rest =>
                rw [dispatch, hkinds] at hdispatch
                cases hdispatch
                simpa [container_failures] using htype

theorem Executor.Sound.visit {x : Executor Sub V C ε} (h : x.Sound) {g : Graph Sub}
    {w : WiringMap} {seeds : Dict (String × String) V} {results : Results V} {id : String}
    {cause : Failure ε} (hvisit : x.visit g w seeds results id = .error cause) :
    cause ∉ container_failures := by
  rcases Checks.bind_eq_error.mp hvisit with hnode | ⟨node, -, hvisit⟩
  · cases hnode' : g.nodes.get? id <;> rw [hnode'] at hnode <;> cases hnode
    simp [container_failures]
  · rcases Checks.bind_eq_error.mp hvisit with hbind | ⟨inputs, -, hrun⟩
    · obtain ⟨e, -, rfl⟩ := Checks.mapError_eq_error.mp hbind
      simp [container_failures]
    · exact h.run_node hrun

theorem Executor.Sound.walk {x : Executor Sub V C ε} (h : x.Sound) {g : Graph Sub}
    {w : WiringMap} {seeds : Dict (String × String) V} {order : List String} {results : Results V}
    {error : ExecutionError ε} (hwalk : x.walk g w seeds order results = .error error) :
    ∃ id cause, error = .failed id cause ∧ cause ∉ container_failures := by
  induction order generalizing results with
  | nil => cases hwalk
  | cons id rest ih =>
      rw [Executor.walk, List.foldlM_cons] at hwalk
      rcases Checks.bind_eq_error.mp hwalk with hstep | ⟨results', -, hrest⟩
      · rcases Checks.bind_eq_error.mp hstep with hvisit | ⟨outputs, -, hset⟩
        · obtain ⟨cause, hcause, rfl⟩ := Checks.mapError_eq_error.mp hvisit
          exact ⟨id, cause, rfl, h.visit hcause⟩
        · cases hset
      · exact ih hrest

theorem Executor.Sound.execute_functional {x : Executor Sub V C ε} (h : x.Sound) {g : Graph Sub}
    {seeds : Dict (String × String) V} {error : ExecutionError ε}
    (hrun : x.execute_functional g seeds = .error error) : error.cause ∉ container_failures := by
  rcases Checks.bind_eq_error.mp hrun with hprepare | ⟨⟨order, w⟩, -, hwalk⟩
  · obtain ⟨e, -, rfl⟩ := Checks.mapError_eq_error.mp hprepare
    simp [container_failures, ExecutionError.cause]
  · obtain ⟨id, cause, rfl, hcause⟩ := h.walk hwalk
    exact hcause

/-- Induction on the depth of nesting. -/
theorem nested_executor_sound (n : Nat) : (nested_executor rt call clients n).Sound := by
  induction n with
  | zero =>
      intro node inputs cause hrun
      cases hrun
      simp [container_failures]
  | succ n ih =>
      intro node inputs cause hrun
      have hcodegen : ∀ e, (.codegen e : Failure ε) ∉ container_failures := by
        simp [container_failures]
      have hguard : ∀ ok e, Checks.guard ok (.codegen e : Failure ε) = .error cause →
          cause ∉ container_failures := by
        intro ok e h
        cases ok <;> cases h
        exact hcodegen e
      have hlookup : ∀ e, (.lookup e : Failure ε) ∉ container_failures := by
        simp [container_failures]
      -- the checks of a composite before its subgraph runs, one by one
      rcases Checks.bind_eq_error.mp hrun with h | ⟨subgraph, -, hrun⟩
      · cases hsub : node.subgraph <;> rw [hsub] at h <;> cases h
        exact hcodegen _
      rcases Checks.bind_eq_error.mp hrun with h | ⟨boundary, -, hrun⟩
      · obtain ⟨e, -, rfl⟩ := Checks.mapError_eq_error.mp h
        exact hcodegen e
      rcases Checks.bind_eq_error.mp hrun with h | ⟨-, -, hrun⟩
      · exact hguard _ _ h
      rcases Checks.bind_eq_error.mp hrun with h | ⟨-, -, hrun⟩
      · exact hguard _ _ h
      rcases Checks.bind_eq_error.mp hrun with h | ⟨seeds, -, hrun⟩
      · obtain ⟨e, -, rfl⟩ := Checks.mapError_eq_error.mp h
        exact hlookup e
      rcases Checks.bind_eq_error.mp hrun with h | ⟨results, -, hrun⟩
      · obtain ⟨error, herror, rfl⟩ := Checks.mapError_eq_error.mp h
        exact ih.execute_functional herror
      · obtain ⟨e, -, rfl⟩ := Checks.mapError_eq_error.mp hrun
        exact hlookup e

end Causes

/-! ## The condition is needed -/

section Needed

/-- Nodes that deliver `None` at every port, and never raise. -/
def Deployment.total (d : Deployment V C ε) : Behaviours V C ε := fun _ node _ _ =>
  .ok (Dict.ofList (node.ports.map fun p => (p.name, d.runtime.none_value)))

variable {done rest : List String} {id : String} {node : Node (Nested n)} {results : Results V}

/-- All nodes `done` have results at all their ports. -/
def Full (m : Graph (Nested n)) (done : List String) (results : Results V) : Prop :=
  ∀ id ∈ done, ∃ node outputs, m.nodes.get? id = some node ∧ results.get? id = some outputs ∧
    ∀ p ∈ node.ports, ∃ v, outputs.get? p.name = some v

/-- A node whose sources are full can be bound. -/
theorem Full.bindable (h : Full m done results) (hs : Scope m w order)
    (hnode : m.nodes.get? id = some node) (hdone : ∀ a, m.Feeds a id → a ∈ done) :
    ∃ inputs, bind_inputs d.runtime m w Dict.empty results node = .ok inputs := by
  have hwired := hs.wired id node hnode
  have hvalue : ∀ port ∈ node.in_ports, ∀ src ∈ m.port_sources id port,
      ∃ v, m.upstream_result results src = .ok (some v) := by
    intro port _ src hsrc
    obtain ⟨source, outputs, hsource, hresults, hports⟩ :=
      h src.node_id (hdone _ (Graph.feeds_of_mem_sources hsrc))
    obtain ⟨port_name, hname⟩ := hs.source_name _ src hsrc
    obtain ⟨source', hsource', hport⟩ := Checks.bind_eq_ok.mp hname
    rw [Checks.require_eq_ok, hsource, Option.some.injEq] at hsource'
    subst hsource'
    obtain ⟨p, hp, rfl⟩ := Option.map_eq_some_iff.mp (Checks.require_eq_ok.mp hport)
    obtain ⟨v, hv⟩ := hports p (List.mem_of_find?_eq_some hp)
    refine ⟨v, ?_⟩
    simp [Graph.upstream_result, Graph.source_value, hname, Results.value, hresults, hv, bind,
      Except.bind, Except.mapError]
  obtain ⟨v, hv⟩ := exists_values d.runtime hvalue
  have hbound : bind_ports d.runtime w (m.upstream_result results) Dict.empty Dict.empty node {}
      node.in_ports = .ok _ := bind_ports_of_values hwired hv {}
  have hbind : Bound.inputs <$> bind_ports d.runtime w (m.upstream_result results) Dict.empty
      Dict.empty node {} node.in_ports =
        (bind_inputs d.runtime m w Dict.empty results node).mapError .raise :=
    bind_ports_eq_bind_inputs node.in_ports (fun _ _ _ _ _ _ => rfl) {}
  rw [hbound] at hbind
  exact ⟨_, Checks.mapError_eq_ok.mp hbind.symm⟩

/-- A node that can be called delivers at all its ports. -/
theorem Deployment.run_total (d : Deployment V C ε) (hplain : node.type ≠ COMPOSITE_NODE_TYPE)
    (hcall : ¬ d.Undispatchable node) (inputs : Dict String V) : ∃ outputs,
      (d.executor d.total n).run_node node inputs = .ok outputs ∧
        ∀ p ∈ node.ports, ∃ v, outputs.get? p.name = some v := by
  have hruntime : (d.executor d.total n).runtime = d.runtime := by cases n <;> rfl
  have hbehaviour : (d.executor d.total n).call = d.total n := by cases n <;> rfl
  obtain ⟨definition, hdef, hkinds⟩ : ∃ definition, d.runtime.registry node.type = some definition ∧
      definition.required_client_kinds.length ≤ 1 := by
    simpa [Deployment.Undispatchable, hplain] using hcall
  refine ⟨Dict.ofList (node.ports.map fun p => (p.name, d.runtime.none_value)), ?_,
    fun p hp => Dict.get?_ofList_of_mem ?_⟩
  · rw [Executor.run_node, if_neg hplain, hruntime, hdef]
    show dispatch _ _ definition node inputs = _
    rw [hbehaviour]
    cases hlist : definition.required_client_kinds with
    | nil =>
        simp only [dispatch, hlist, definition_execute, if_neg hplain, Deployment.total,
          Except.mapError]
    | cons kind rest =>
        cases rest with
        | nil =>
            simp only [dispatch, hlist, definition_execute, if_neg hplain, Deployment.total,
              Except.mapError]
        | cons second rest => simp [hlist] at hkinds
  · exact List.mem_map.mpr ⟨_, List.mem_map.mpr ⟨p, hp, rfl⟩, rfl⟩

/-- Such nodes do not fail. -/
theorem Full.run (hs : Scope m w order) (hall : ∀ a b, m.Feeds a b → a ∈ order)
    (rest : List String) {done post : List String} {results : Results V}
    (hsplit : order = done ++ rest ++ post) (h : Full m done results)
    (hcall : ∀ id ∈ rest, ∀ node, m.nodes.get? id = some node →
      node.type ≠ COMPOSITE_NODE_TYPE ∧ ¬ d.Undispatchable node) :
    ∃ results', (d.executor d.total n).walk m w Dict.empty rest results = .ok results' ∧
      Full m (done ++ rest) results' := by
  induction rest generalizing done results with
  | nil => exact ⟨results, rfl, by rwa [List.append_nil]⟩
  | cons id rest ih =>
      have hsplit' : order = done ++ id :: (rest ++ post) := by simp [hsplit]
      have hdone : ∀ a, m.Feeds a id → a ∈ done := fun a ha =>
        hs.producer_done hsplit' ha (hall a id ha)
      have hid : id ∉ done := hs.fresh hsplit'
      have hruntime : (d.executor d.total n).runtime = d.runtime := by cases n <;> rfl
      obtain ⟨node, hnode⟩ := hs.node id (hsplit' ▸ by simp)
      obtain ⟨hplain, hdispatch⟩ := hcall id List.mem_cons_self node hnode
      obtain ⟨inputs, hinputs⟩ := h.bindable (d := d) hs hnode hdone
      obtain ⟨outputs, hrun, hports⟩ := d.run_total hplain hdispatch inputs
      have hvisit : (d.executor d.total n).visit m w Dict.empty results id =
          .ok outputs := by
        rw [Executor.visit_found hnode, hruntime, hinputs]
        exact hrun
      -- the node that ran has the outputs of its ports, the others what they had
      have hnext : Full m (done ++ [id]) (results.set id outputs) := by
        intro other hother
        by_cases hne : other = id
        · subst hne
          exact ⟨node, outputs, hnode, Dict.get?_set_self _ _ _, hports⟩
        · rw [Dict.get?_set_ne _ _ (Ne.symm hne)]
          exact h other (by simpa [hne] using hother)
      obtain ⟨results', hwalk, hfull⟩ := ih (by simp [hsplit]) hnext
        fun other hmem => hcall other (List.mem_cons_of_mem _ hmem)
      refine ⟨results', ?_, by simpa using hfull⟩
      rw [Executor.walk_cons, hvisit]
      exact hwalk

/-- The server fails at a composite whose sources have values. -/
theorem Mirrors.composite {call : Behaviours V C ε} {st : WalkState (d.server call n)}
    (h : Mirrors done results st) (hs : Scope m w order) (hnode : m.nodes.get? id = some node)
    (hdone : ∀ a, m.Feeds a id → a ∈ done) (htype : node.type = COMPOSITE_NODE_TYPE)
    {inputs : Dict String V}
    (hbind : bind_inputs d.runtime m w Dict.empty results node = .ok inputs) {total index : Nat}
    {t : Trace (d.server call n)} (ht : Visited m w total index id node st t) :
    ∃ cause ∈ container_failures, t.first_failure = some (id, cause) ∧ t.escaped = none := by
  have hbinding := h.binding hs hnode hdone
  rw [hbind] at hbinding
  cases ht with
  | escaped bind | skipped bind =>
      rw [bind] at hbinding
      cases hbinding
  | @interrupted bound e cache bind interrupted =>
      obtain ⟨cause, hrun, hcause⟩ : ∃ cause, (d.server call n).run_node node bound.inputs =
          .error cause ∧ cause ∈ container_failures := d.run_composite htype bound.inputs
      rw [interrupted.run] at hrun
      cases hrun
      -- what the container raises is caught
      have huncaught := interrupted.uncaught
      simp only [container_failures, List.mem_cons, List.not_mem_nil, or_false] at hcause
      rcases hcause with rfl | rfl | rfl <;> cases huncaught
  | @ran bound event after bind ran =>
      obtain ⟨cause, hrun, hcause⟩ : ∃ cause, (d.server call n).run_node node bound.inputs =
          .error cause ∧ cause ∈ container_failures := d.run_composite htype bound.inputs
      cases ran with
      | hit hash found kept => cases found
      | @failed e cache miss run caught kept =>
          rw [hrun] at run
          cases run
          exact ⟨cause, hcause, rfl, rfl⟩
      | @fresh outputs cache miss run stored =>
          rw [hrun] at run
          cases run

theorem walk_append {sv : Server (Nested n) V C ε} (m : Graph (Nested n)) (w : WiringMap)
    {total : Nat} (pre post : List String) {index : Nat} {st : WalkState sv}
    (h : (walk m w total index pre st).escaped = none) :
    walk m w total index (pre ++ post) st =
      let t := walk m w total index pre st
      let t' := walk m w total (index + pre.length) post t.state
      ⟨t.events ++ t'.events, t'.state, t'.escaped⟩ := by
  induction pre generalizing index st with
  | nil => rfl
  | cons id pre ih =>
      rw [walk] at h
      rw [List.cons_append, walk, walk]
      cases hstay : (visit m w total index id st).escaped with
      | some stop => simp [hstay] at h
      | none =>
          simp only [hstay] at h
          have hrest := ih h
          simp only [hrest, List.length_cons, List.append_assoc]
          rw [Nat.add_assoc, Nat.add_comm 1]

/-- A stream of `ok` events reports no failure. -/
theorem no_failure_of_ok_events {sv : Server (Nested n) V C ε} {t : Trace sv}
    (hescaped : t.escaped = none) (hendings : List.Forall₂ (OkEvent m results) rest t.endings) :
    t.first_failure = none := by
  have hok : ∀ event ∈ t.endings, NodeEvent.failure event = none := by
    generalize t.endings = endings at hendings
    induction hendings with
    | nil => simp
    | cons hhead _ ih =>
        obtain ⟨node, outputs, -, -, rfl⟩ := hhead
        rw [List.forall_mem_cons]
        exact ⟨rfl, ih⟩
  rw [Trace.first_failure, hescaped, Option.or_none, List.findSome?_eq_none_iff]
  intro event hmem
  cases event with
  | start id label current total => rfl
  | ok id label outputs cached => rfl
  | skip id label reason => rfl
  | error id label e => exact hok _ (List.mem_filter.mpr ⟨hmem, rfl⟩)

/-- Where nodes before a composite can be called, some nodes tell the two
sides apart. -/
theorem Deployment.Accepts.not_refines (h : d.Accepts n g params m order w) (hv : g.Valid)
    {pre post : List String} (hsplit : order = pre ++ id :: post)
    (hnode : m.nodes.get? id = some node) (htype : node.type = COMPOSITE_NODE_TYPE)
    (hcall : ∀ other ∈ pre, ∀ node, m.nodes.get? other = some node →
      node.type ≠ COMPOSITE_NODE_TYPE ∧ ¬ d.Undispatchable node) (artifacts : d.artifacts.State) :
    ¬ Refines d d.total n g params artifacts := by
  obtain ⟨hs, hall⟩ := h.scope hv
  have hdone : ∀ a, m.Feeds a id → a ∈ pre := fun a ha =>
    hs.producer_done hsplit ha (hall a id ha)
  have hempty : Full m [] (Dict.empty : Results V) := by simp [Full]
  obtain ⟨results, hwalk, hfull⟩ := Full.run hs hall pre hsplit hempty hcall
  obtain ⟨inputs, hinputs⟩ := hfull.bindable (d := d) hs hnode hdone
  have hplain : d.Plain d.total m w pre Dict.empty := by
    intro pre' other post' hpre _ node' hnode'
    exact (hcall other (hpre ▸ by simp) node' hnode').1
  have hagree : Agree (d.executor d.total n) m w [] pre Dict.empty
      (walk m w order.length 1 pre
        ({ cache := (), artifacts } : WalkState (d.server d.total n))) :=
    Mirrors.walk hs hall pre hsplit ⟨rfl, by simp⟩ hplain
  -- the first failure of the stream is the composite
  obtain ⟨cause, hcause, hfirst⟩ : ∃ cause ∈ container_failures, (walk m w order.length 1 order
      ({ cache := (), artifacts } : WalkState (d.server d.total n))).first_failure =
        some (id, cause) := by
    cases hagree with
    | failed hwalk' failure =>
        rw [hwalk] at hwalk'
        cases hwalk'
    | ok hwalk' complete mirrors clean endings =>
        rw [hwalk] at hwalk'
        cases hwalk'
        obtain ⟨cause, hcause, hfailure, hstay⟩ := mirrors.composite hs hnode hdone htype hinputs
          (visit_cases w _ hnode order.length (1 + pre.length))
        refine ⟨cause, hcause, ?_⟩
        have happend := walk_append m w pre (id :: post) complete
        rw [← hsplit] at happend
        rw [happend]
        simp only [Trace.first_failure, walk, hstay, List.findSome?_append, clean, Option.none_or,
          Option.or_none] at hfailure ⊢
        rw [hfailure]
        rfl
  intro hrefines
  cases hexecute : d.execute d.total n g params with
  | ok results =>
      obtain ⟨m', order', t, -, -, hstream, hescaped, hendings⟩ := hrefines.ok results hexecute
      rw [h.stream artifacts, Except.ok.injEq] at hstream
      rw [hstream, no_failure_of_ok_events hescaped hendings] at hfirst
      cases hfirst
  | error error =>
      obtain ⟨id', cause', rfl, hcause'⟩ :=
        (nested_executor_sound n).walk (h.execute.symm.trans hexecute)
      obtain ⟨t, hstream, hfailure⟩ := hrefines.failed id' cause' hexecute
      rw [h.stream artifacts, Except.ok.injEq] at hstream
      rw [hstream, hfailure] at hfirst
      cases hfirst
      exact hcause' hcause

end Needed

/-- The stream refines `execute`, whatever the nodes do, exactly on the
graphs whose runs avoid composites. -/
theorem stream_refines_execute_iff (hv : g.Valid) (artifacts : d.artifacts.State) :
    (∀ call : Behaviours V C ε, Refines d call n g params artifacts) ↔
      d.AvoidsComposites n g params := by
  refine ⟨fun hrefines m order w h => ?_, fun havoids call => havoids.refines hv artifacts⟩
  intro pre
  -- by induction on the length: the first composite decides
  induction hlen : pre.length using Nat.strongRecOn generalizing pre with
  | ind k ih =>
      intro id post hsplit node hnode htype
      by_contra hnone
      refine h.not_refines hv hsplit hnode htype ?_ artifacts (hrefines d.total)
      intro other hmem node' hnode'
      refine ⟨fun htype' => ?_, fun hundispatchable => ?_⟩
      · obtain ⟨pre', post', rfl⟩ := List.append_of_mem hmem
        obtain ⟨other', hmem', hrest⟩ := ih pre'.length (by simp [← hlen]) pre' rfl other
          (post' ++ id :: post) (by simp [hsplit]) node' hnode' htype'
        exact hnone ⟨other', List.mem_append_left _ hmem', hrest⟩
      · exact hnone ⟨other, hmem, node', hnode', hundispatchable⟩

/-! ## A composite, and a graph without one -/

/-- A `layout.composite` node around one `data.load_csv` node. -/
def loading_composite : Graph (Nested 1) where
  nodes := Dict.ofList [
    ("c", {
      id := "c"
      type := COMPOSITE_NODE_TYPE
      ports := [{ id := "o", name := "frame", direction := .OUT }]
      subgraph := some ({
        nodes := Dict.ofList [
          ("load", { id := "load", type := "data.load_csv", ports := [
            { id := "f", name := "frame", direction := .OUT }] })] } : Graph (Nested 0)) })]

/-- A deployment whose nodes need no client. -/
def clientless : Deployment Nat Unit Unit where
  runtime := {
    registry := fun type => some { type }
    none_value := 0
    list_value := List.sum }
  is_exception _ := true
  gate _ _ := true
  gateway := ()
  warehouse := ()
  hashing := { dumps := fun _ => "", sha256 := id, version := "" }
  artifacts := .null _ _ _

/-- Nodes that deliver a `frame`. -/
def frame_call : Behaviours Nat Unit Unit := fun _ _ _ _ => .ok (Dict.ofList [("frame", 7)])

/-- `execute` delivers the frame of the subgraph; the stream reports that
the composite cannot be executed. -/
theorem composite_breaks_refinement : loading_composite.validate_structure = .ok () ∧
    ¬ Refines clientless frame_call 1 loading_composite none () := by
  refine ⟨rfl, fun h => ?_⟩
  obtain ⟨results, hexecute⟩ : ∃ results,
      clientless.execute frame_call 1 loading_composite none = .ok results := ⟨_, rfl⟩
  obtain ⟨m, order, t, -, -, hstream, -, hendings⟩ := h.ok results hexecute
  cases hstream
  cases hendings with
  | cons hhead _ =>
    obtain ⟨node, outputs, -, -, hevent⟩ := hhead
    cases hevent

/-- Without a composite, the stream refines `execute`. -/
theorem load_and_describe_refines :
    Refines clientless frame_call 0 (load_and_describe "f") none () := by
  have hv : (load_and_describe "f").Valid := Graph.validate_structure_eq_ok.mp rfl
  refine (@stream_refines_execute_iff _ _ _ clientless 0 (load_and_describe "f") none hv ()).mpr ?_
    frame_call
  intro m order w h pre id post hsplit node hnode htype
  cases h.materialized
  have htypes : ∀ e ∈ (load_and_describe "f").nodes.entries, e.2.type ≠ COMPOSITE_NODE_TYPE := by
    decide
  exact absurd htype (htypes _ ((Dict.mem_entries_iff _).mpr hnode))

end EmergentFlow
