import EmergentFlow.Server.StreamAgree

/-!
# Server — ExecuteSimulation

The server walks a graph itself instead of calling `ef.execute`. Below, the
two walks side by side, with the same node types, nodes that do the same,
and no cache. Past the same guards they agree node by node, in results and
in the first failure, up to the first `layout.composite` node
(`Mirrors.walk`).
-/

namespace EmergentFlow

variable {V C ε : Type}

/-! ## The two walks -/

/-- What the nodes of a graph do, at every depth of nesting. -/
abbrev Behaviours (V C ε : Type) := ∀ n, Behaviour (Nested n) V C ε

/-- What the executor and the server share. -/
structure Deployment (V C ε : Type) where
  runtime : Runtime V
  /-- An instance of `Exception`, unlike `SystemExit` and `KeyboardInterrupt`. -/
  is_exception : ε → Bool
  gate : ∀ n, Graph (Nested n) → Bool
  gateway : C
  warehouse : C
  hashing : Hashing
  artifacts : LossyStore String (Dict String V) (String × String)

/-- The bundle with the clients that the server builds. -/
def Deployment.clients (d : Deployment V C ε) : Clients C where
  llm := some d.gateway
  warehouse := some d.warehouse

/-- `ef.execute` with these clients. -/
def Deployment.execute (d : Deployment V C ε) (call : Behaviours V C ε) (n : Nat)
    (g : Graph (Nested n)) (params : Option (Dict String ParamValue)) :
    Except (ExecutionError ε) (Results V) :=
  EmergentFlow.execute d.runtime d.gate call d.clients n g params

/-- The executor of graphs nested at most `n` deep. -/
def Deployment.executor (d : Deployment V C ε) (call : Behaviours V C ε) (n : Nat) :
    Executor (Nested n) V C ε :=
  nested_executor d.runtime call d.clients n

/-- The server, with caching disabled. -/
def Deployment.server (d : Deployment V C ε) (call : Behaviours V C ε) (n : Nat) :
    Server (Nested n) V C ε where
  runtime := d.runtime
  gate := d.gate n
  call := call n
  is_exception := d.is_exception
  gateway := d.gateway
  warehouse := d.warehouse
  hashing := d.hashing
  cache := .null _ _ _
  artifacts := d.artifacts

/-- The server's run of a whole graph: the graph the walk reads is
materialized first (`execute_graph_stream`). -/
def Deployment.stream (d : Deployment V C ε) (call : Behaviours V C ε) (n : Nat)
    (g : Graph (Nested n)) (params : Option (Dict String ParamValue))
    (artifacts : d.artifacts.State) : Except CodegenError (Trace (d.server call n)) := do
  let m ← materialize_if_needed n g params
  (d.server call n).stream m none () artifacts

/-- The node and the cause, if the event reports a failure. -/
def NodeEvent.failure : NodeEvent V ε → Option (String × Failure ε)
  | .error id _ e => some (id, e)
  | _ => none

/-- The first failure of a walk: an `error` event, or else the one that ended
the generator. -/
def Trace.first_failure {Sub : Type} {sv : Server Sub V C ε} (t : Trace sv) :
    Option (String × Failure ε) :=
  (t.events.findSome? NodeEvent.failure).or t.escaped

/-- The events that end a node. -/
def Trace.endings {Sub : Type} {sv : Server Sub V C ε} (t : Trace sv) : List (NodeEvent V ε) :=
  t.events.filter fun event => event.terminal.isSome

/-- The event delivers the results of the node. -/
def OkEvent {Sub : Type} (g : Graph Sub) (results : Results V) (id : String)
    (event : NodeEvent V ε) : Prop :=
  ∃ node outputs, g.nodes.get? id = some node ∧ results.get? id = some outputs ∧
    event = .ok id (node.label.getD "") outputs false

/-- The stream refines `execute` on a graph. -/
structure Refines (d : Deployment V C ε) (call : Behaviours V C ε) (n : Nat) (g : Graph (Nested n))
    (params : Option (Dict String ParamValue)) (artifacts : d.artifacts.State) : Prop where
  /-- One `ok` event for each node in topological order, with its results. -/
  ok : ∀ results, d.execute call n g params = .ok results → ∃ m order t,
    materialize_if_needed n g params = .ok m ∧ topological_sort m = .ok order ∧
      d.stream call n g params artifacts = .ok t ∧ t.escaped = none ∧
        List.Forall₂ (OkEvent m results) order t.endings
  /-- The same first failure. -/
  failed : ∀ id cause, d.execute call n g params = .error (.failed id cause) →
    ∃ t, d.stream call n g params artifacts = .ok t ∧ t.first_failure = some (id, cause)

/-! ## Binding and running one node -/

section Node

variable {Sub : Type} {rt : Runtime V} {g : Graph Sub} {w : WiringMap} {node : Node Sub}
  {results : Results V} {value : PortRef → Except Stop (Option V)}
  {node_status : Dict String NodeStatus} {node_hashes : Dict String (Option String)}

/-- What the walk reads of a source that has been visited. -/
def Graph.upstream_result (g : Graph Sub) (results : Results V) (src : PortRef) :
    Except Stop (Option V) :=
  some <$> (g.source_value results src).mapError .raise

/-- The executor binds a list of sources to what the server does. -/
theorem bind_sources_eq_mapM (port : Port) {l : List PortRef}
    (h : ∀ src ∈ l, value src = g.upstream_result results src) :
    List.map Prod.fst <$> bind_sources value node_status node_hashes port l =
      (l.mapM (g.source_value results)).mapError .raise := by
  induction l with
  | nil => rfl
  | cons src rest ih =>
      have hrest := ih fun src hsrc => h src (List.mem_cons_of_mem _ hsrc)
      have hsrc := h src List.mem_cons_self
      rw [List.mapM_cons, bind_sources, bind_source, hsrc, Graph.upstream_result]
      cases g.source_value results src with
      | error e => rfl
      | ok v =>
          cases hvalues : rest.mapM (g.source_value results) with
          | error e =>
              rw [hvalues] at hrest
              cases hbounds : bind_sources value node_status node_hashes port rest with
              | error stop =>
                  rw [hbounds] at hrest
                  cases hrest
                  rfl
              | ok bounds =>
                  rw [hbounds] at hrest
                  cases hrest
          | ok values =>
              rw [hvalues] at hrest
              cases hbounds : bind_sources value node_status node_hashes port rest with
              | error stop =>
                  rw [hbounds] at hrest
                  cases hrest
              | ok bounds =>
                  rw [hbounds] at hrest
                  cases hrest
                  rfl

/-- The executor binds an IN port to what the server does. -/
theorem bind_port_eq_bind_input (port : Port)
    (h : ∀ l, w.upstream ⟨node.id, port.id⟩ = some l → ∀ src ∈ l,
      value src = g.upstream_result results src) (bound : Bound V) :
    Bound.inputs <$> bind_port rt w value node_status node_hashes node bound port =
      (bind_input rt g w Dict.empty results node bound.inputs port).mapError .raise := by
  unfold bind_port bind_input
  cases hsources : w.upstream ⟨node.id, port.id⟩ with
  | none => rfl
  | some sources =>
      have hvalues := @bind_sources_eq_mapM _ _ g results value node_status node_hashes port
        sources (h sources hsources)
      simp only [Checks.require_some, Dict.get?_empty]
      cases port.cardinality with
      | MANY =>
          cases hbounds : bind_sources value node_status node_hashes port sources <;>
            cases hmapM : sources.mapM (g.source_value results) <;>
            rw [hbounds, hmapM] at hvalues <;> cases hvalues <;>
            simp only [bind, Except.bind, hmapM] <;> rfl
      | ONE =>
          match sources with
          | [] => rfl
          | [src] =>
              have hsrc := h [src] hsources src List.mem_cons_self
              simp only [bind_source, hsrc, Graph.upstream_result]
              cases hvalue : g.source_value results src <;>
                simp only [bind, Except.bind, hvalue] <;> rfl
          | _ :: _ :: _ => rfl

/-- The executor binds the IN ports of a node to what the server does. -/
theorem bind_ports_eq_bind_inputs (ports : List Port)
    (h : ∀ port ∈ ports, ∀ l, w.upstream ⟨node.id, port.id⟩ = some l → ∀ src ∈ l,
      value src = g.upstream_result results src) (bound : Bound V) :
    Bound.inputs <$> bind_ports rt w value node_status node_hashes node bound ports =
      (ports.foldlM (bind_input rt g w Dict.empty results node) bound.inputs).mapError .raise := by
  induction ports generalizing bound with
  | nil => rfl
  | cons port rest ih =>
      have hport := @bind_port_eq_bind_input _ _ rt g w node results value node_status node_hashes
        port (h port List.mem_cons_self) bound
      rw [bind_ports, List.foldlM_cons]
      cases hbound : bind_port rt w value node_status node_hashes node bound port <;>
        cases hinput : bind_input rt g w Dict.empty results node bound.inputs port <;>
        rw [hbound, hinput] at hport <;> cases hport
      · rfl
      · exact ih (fun p hp => h p (List.mem_cons_of_mem _ hp)) _

end Node

section Run

variable {d : Deployment V C ε} {call : Behaviours V C ε} {n : Nat}

/-- A node that is no composite runs alike on both sides. -/
theorem Deployment.run_node_eq {node : Node (Nested n)} (h : node.type ≠ COMPOSITE_NODE_TYPE)
    (inputs : Dict String V) :
    (d.server call n).run_node node inputs = (d.executor call n).run_node node inputs := by
  have hruntime : (d.executor call n).runtime = d.runtime := by cases n <;> rfl
  have hcall : (d.executor call n).call = call n := by cases n <;> rfl
  have hclients : (d.executor call n).clients = d.clients := by cases n <;> rfl
  simp only [Server.run_node, Executor.run_node, if_neg h, hruntime, hcall, hclients]
  cases hdef : d.runtime.registry node.type with
  | none => simp [Deployment.server, hdef, bind, Except.bind]
  | some definition =>
      simp only [Deployment.server, hdef, Checks.require_some, bind, Except.bind,
        Server.execute_node, dispatch]
      cases definition.required_client_kinds with
      | nil => rfl
      | cons kind rest =>
          cases rest with
          | nil => cases kind <;> rfl
          | cons second rest => rfl

/-- The causes that calling the definition of a composite can have. -/
def container_failures : List (Failure ε) :=
  [.composite_execute, .unregistered COMPOSITE_NODE_TYPE, .many_clients COMPOSITE_NODE_TYPE]

/-- The server does not run composites. -/
theorem Deployment.run_composite {node : Node (Nested n)} (h : node.type = COMPOSITE_NODE_TYPE)
    (inputs : Dict String V) : ∃ cause, (d.server call n).run_node node inputs = .error cause ∧
      cause ∈ container_failures := by
  cases hdef : d.runtime.registry node.type with
  | none =>
      refine ⟨.unregistered node.type, ?_, by simp [container_failures, h]⟩
      simp [Server.run_node, Deployment.server, hdef, bind, Except.bind]
  | some definition =>
      have hrun : (d.server call n).run_node node inputs =
          (d.server call n).execute_node definition node inputs := by
        simp [Server.run_node, Deployment.server, hdef, bind, Except.bind]
      rw [hrun]
      have hcomposite : (.composite_execute : Failure ε) ∈ container_failures := by
        simp [container_failures]
      cases hkinds : definition.required_client_kinds with
      | nil =>
          exact ⟨.composite_execute, by simp [Server.execute_node, hkinds, definition_execute, h],
            hcomposite⟩
      | cons kind rest =>
          cases rest with
          | nil =>
              exact ⟨.composite_execute,
                by simp [Server.execute_node, hkinds, definition_execute, h], hcomposite⟩
          | cons second rest =>
              exact ⟨.many_clients node.type, by simp [Server.execute_node, hkinds],
                by simp [container_failures, h]⟩

/-! ## One step -/

/-- The walk after the nodes `done`, all of them ok with these results. -/
structure Mirrors {Sub : Type} {sv : Server Sub V C ε} (done : List String) (results : Results V)
    (st : WalkState sv) : Prop where
  results : st.node_results = results
  status : ∀ id ∈ done, st.node_status.get? id = some .OK

variable {m : Graph (Nested n)} {w : WiringMap} {order done rest : List String} {id : String}
  {node : Node (Nested n)} {results : Results V} {st : WalkState (d.server call n)}
  {total index : Nat} {t : Trace (d.server call n)}

/-- What the server reads of a visited source is what the executor does. -/
theorem Mirrors.value (h : Mirrors done results st) {src : PortRef} (hsrc : src.node_id ∈ done) :
    st.value m src = m.upstream_result results src := by
  simp only [WalkState.value, upstream_value, h.status _ hsrc, h.results, Graph.upstream_result]
  cases m.source_value results src <;> rfl

/-- The two sides bind a node whose sources have been visited alike. -/
theorem Mirrors.binding (h : Mirrors done results st) (hs : Scope m w order)
    (hnode : m.nodes.get? id = some node) (hdone : ∀ a, m.Feeds a id → a ∈ done) :
    Bound.inputs <$> st.binding m w node =
      (bind_inputs d.runtime m w Dict.empty results node).mapError .raise := by
  apply bind_ports_eq_bind_inputs
  intro port hport l hl src hsrc
  rw [(hs.wired id node hnode).upstream port hport, Option.some.injEq] at hl
  exact h.value (hdone _ (Graph.feeds_of_mem_sources (hl ▸ hsrc)))

theorem Executor.visit_found {x : Executor (Nested n) V C ε}
    (hnode : m.nodes.get? id = some node) :
    x.visit m w Dict.empty results id =
      ((bind_inputs x.runtime m w Dict.empty results node).mapError .lookup >>=
        x.run_node node) := by
  simp [Executor.visit, hnode, bind, Except.bind]

/-- The two sides visit a node that is no composite alike. -/
theorem Mirrors.visit (h : Mirrors done results st) (hs : Scope m w order)
    (hnode : m.nodes.get? id = some node) (hdone : ∀ a, m.Feeds a id → a ∈ done)
    (hplain : node.type ≠ COMPOSITE_NODE_TYPE) (ht : Visited m w total index id node st t) :
    (∃ outputs, (d.executor call n).visit m w Dict.empty results id = .ok outputs ∧
        t.events = [.start id (node.label.getD "") index total,
          .ok id (node.label.getD "") outputs false] ∧
        t.escaped = none ∧ Mirrors (done ++ [id]) (results.set id outputs) t.state) ∨
      ∃ cause, (d.executor call n).visit m w Dict.empty results id = .error cause ∧
        t.first_failure = some (id, cause) := by
  have hruntime : (d.executor call n).runtime = d.runtime := by cases n <;> rfl
  have hbind := h.binding hs hnode hdone
  rw [Executor.visit_found hnode, hruntime]
  cases hinputs : bind_inputs d.runtime m w Dict.empty results node with
  | error failure =>
      rw [hinputs] at hbind
      cases ht with
      | escaped bind =>
          rw [bind] at hbind
          cases hbind
          exact .inr ⟨_, rfl, rfl⟩
      | skipped bind | ran bind ran | interrupted bind interrupted =>
          rw [bind] at hbind
          cases hbind
  | ok inputs =>
      rw [hinputs] at hbind
      cases ht with
      | escaped bind | skipped bind =>
          rw [bind] at hbind
          cases hbind
      | @interrupted bound e cache bind interrupted =>
          rw [bind] at hbind
          cases hbind
          have hrun : (d.server call n).run_node node bound.inputs = _ :=
            Deployment.run_node_eq hplain bound.inputs
          rw [interrupted.run] at hrun
          exact .inr ⟨e, hrun.symm, rfl⟩
      | @ran bound event after bind ran =>
          rw [bind] at hbind
          cases hbind
          have hrun : (d.server call n).run_node node bound.inputs = _ :=
            Deployment.run_node_eq hplain bound.inputs
          -- the caches of this server are empty, so no visit is a hit
          cases ran with
          | hit hash found kept => cases found
          | @failed e cache miss run caught kept =>
              rw [run] at hrun
              exact .inr ⟨e, hrun.symm, rfl⟩
          | @fresh outputs cache miss run stored =>
              rw [run] at hrun
              refine .inl ⟨outputs, hrun.symm, rfl, rfl, ?_, ?_⟩
              · simp only [WalkState.record, h.results]
              · intro other hother
                simp only [WalkState.record, Dict.get?_set]
                split
                · rfl
                · rename_i hne
                  apply h.status
                  simpa [Ne.symm hne] using hother

/-! ## Runs -/

theorem Executor.walk_cons (x : Executor (Nested n) V C ε) (results : Results V) :
    x.walk m w Dict.empty (id :: rest) results =
      (x.visit m w Dict.empty results id).mapError (.failed id) >>= fun outputs =>
        x.walk m w Dict.empty rest (results.set id outputs) := by
  rw [Executor.walk, List.foldlM_cons, bind_assoc]
  rfl

/-- The executor records the results of the nodes it visits only. -/
theorem Executor.walk_frame {x : Executor (Nested n) V C ε} {results results' : Results V}
    (h : x.walk m w Dict.empty rest results = .ok results') (hid : id ∉ rest) :
    results'.get? id = results.get? id := by
  induction rest generalizing results with
  | nil =>
      cases h
      rfl
  | cons other rest ih =>
      rw [Executor.walk_cons] at h
      obtain ⟨outputs, -, hrest⟩ := Checks.bind_eq_ok.mp h
      rw [List.mem_cons, not_or] at hid
      rw [ih hrest hid.2, Dict.get?_set_ne _ _ (Ne.symm hid.1)]

/-- The nodes that the executor gets to on its way through `rest` are no
composites. -/
def Deployment.Plain (d : Deployment V C ε) (call : Behaviours V C ε) (m : Graph (Nested n))
    (w : WiringMap) (rest : List String) (results : Results V) : Prop :=
  ∀ pre id post, rest = pre ++ id :: post →
    (∃ r, (d.executor call n).walk m w Dict.empty pre results = .ok r) →
    ∀ node, m.nodes.get? id = some node → node.type ≠ COMPOSITE_NODE_TYPE

theorem Deployment.Plain.head (h : d.Plain call m w (id :: rest) results)
    (hnode : m.nodes.get? id = some node) : node.type ≠ COMPOSITE_NODE_TYPE :=
  h [] id rest rfl ⟨results, rfl⟩ node hnode

theorem Deployment.Plain.tail (h : d.Plain call m w (id :: rest) results)
    {outputs : Dict String V}
    (hvisit : (d.executor call n).visit m w Dict.empty results id = .ok outputs) :
    d.Plain call m w rest (results.set id outputs) := by
  rintro pre other post rfl ⟨r, hr⟩
  refine h (id :: pre) other post rfl ⟨r, ?_⟩
  rw [Executor.walk_cons, hvisit]
  exact hr

/-- How the two sides go through `rest`: both to its end, or both to the
same failure. -/
inductive Agree (x : Executor (Nested n) V C ε) (m : Graph (Nested n)) (w : WiringMap)
    (done rest : List String) (results : Results V) (t : Trace (d.server call n)) : Prop
  | ok {results' : Results V} (walk : x.walk m w Dict.empty rest results = .ok results')
      (complete : t.escaped = none) (mirrors : Mirrors (done ++ rest) results' t.state)
      (clean : t.events.findSome? NodeEvent.failure = none)
      (endings : List.Forall₂ (OkEvent m results') rest t.endings)
  | failed {id : String} {cause : Failure ε}
      (walk : x.walk m w Dict.empty rest results = .error (.failed id cause))
      (failure : t.first_failure = some (id, cause))

/-- The two sides agree on all that comes before a composite. -/
theorem Mirrors.walk (hs : Scope m w order) (hall : ∀ a b, m.Feeds a b → a ∈ order)
    {total : Nat} (rest : List String) {done post : List String} {results : Results V}
    {st : WalkState (d.server call n)} {index : Nat} (hsplit : order = done ++ rest ++ post)
    (h : Mirrors done results st) (hplain : d.Plain call m w rest results) :
    Agree (d.executor call n) m w done rest results (walk m w total index rest st) := by
  induction rest generalizing done results st index with
  | nil => exact .ok rfl rfl ((List.append_nil done).symm ▸ h) rfl .nil
  | cons id rest ih =>
      have hsplit' : order = done ++ id :: (rest ++ post) := by simp [hsplit]
      have hid : id ∉ rest := by
        have hnodup := hs.nodup
        rw [hsplit', List.nodup_append, List.nodup_cons] at hnodup
        exact fun hmem => hnodup.2.1.1 (List.mem_append_left _ hmem)
      obtain ⟨node, hnode⟩ := hs.node id (hsplit' ▸ by simp)
      have hdone : ∀ a, m.Feeds a id → a ∈ done := fun a ha =>
        hs.producer_done hsplit' ha (hall a id ha)
      have hcons : (d.executor call n).walk m w Dict.empty (id :: rest) results = _ :=
        Executor.walk_cons _ results
      rcases h.visit hs hnode hdone (hplain.head hnode) (visit_cases w st hnode total index) with
        ⟨outputs, hvisit, hevents, hstay, hnext⟩ | ⟨cause, hvisit, hfailure⟩
      · rw [hvisit] at hcons
        have hrest := @ih (done ++ [id]) _ _ (index + 1) (by simp [hsplit]) hnext
          (hplain.tail hvisit)
        simp only [EmergentFlow.walk, hstay]
        cases hrest with
        | @ok results' hwalk complete mirrors clean endings =>
            refine .ok (hcons.trans hwalk) complete (by simpa using mirrors) ?_ ?_
            · simpa [hevents, NodeEvent.failure] using clean
            · -- no later visit writes the results of this node again
              have hkept := (Executor.walk_frame hwalk hid).trans (Dict.get?_set_self _ _ _)
              simp only [Trace.endings, List.filter_append, hevents]
              exact .cons ⟨node, outputs, hnode, hkept, rfl⟩ endings
        | failed hwalk failure =>
            refine .failed (hcons.trans hwalk) ?_
            simp only [Trace.first_failure, hevents]
            exact failure
      · rw [hvisit] at hcons
        refine .failed hcons ?_
        simp only [EmergentFlow.walk]
        cases hescaped : (EmergentFlow.visit m w total index id st).escaped with
        | some stop => exact hfailure
        | none =>
            simp only [Trace.first_failure, hescaped, Option.or_none,
              List.findSome?_append] at hfailure ⊢
            simp [hfailure]

end Run

/-! ## The guards -/

section Guards

variable {d : Deployment V C ε} {call : Behaviours V C ε} {n : Nat} {g m : Graph (Nested n)}
  {params : Option (Dict String ParamValue)} {w : WiringMap} {order : List String}

/-- The guards of both sides let the graph through: the graph the walks
read, the order and the wiring. -/
structure Deployment.Accepts (d : Deployment V C ε) (n : Nat) (g : Graph (Nested n))
    (params : Option (Dict String ParamValue)) (m : Graph (Nested n)) (order : List String)
    (w : WiringMap) : Prop where
  gate : d.gate n g = true
  materialized : materialize_if_needed n g params = .ok m
  gate_again : d.gate n m = true
  paradigms : m.check_paradigms = .ok ()
  sorted : topological_sort m = .ok order
  wiring : build_wiring_map m = .ok w
  bound : m.check_bound_inputs d.runtime.registry w (fun _ _ => false) order = .ok ()

theorem Deployment.Accepts.scope (h : d.Accepts n g params m order w) (hv : g.Valid) :
    Scope m w order ∧ ∀ a b, m.Feeds a b → a ∈ order := by
  have hm : m.Valid := hv.materialize h.materialized
  have hscope := hm.scope h.sorted h.wiring fun _ => true
  rw [List.filter_true] at hscope
  refine ⟨hscope, fun a b hfeeds => ?_⟩
  exact (topological_sort_eq_ok hm h.sorted).1.mem_iff.mpr (hm.mem_keys hfeeds).1

/-- Past the guards, `execute` is the executor's walk. -/
theorem Deployment.Accepts.execute (h : d.Accepts n g params m order w) :
    d.execute call n g params =
      (d.executor call n).walk m w Dict.empty order Dict.empty := by
  have hruntime : (d.executor call n).runtime = d.runtime := by cases n <;> rfl
  have hseeds : (fun id name => (Dict.empty : Dict (String × String) V).contains (id, name)) =
      fun _ _ => false := rfl
  have hprepare : (d.executor call n).prepare m Dict.empty = .ok (order, w) := by
    simp [Executor.prepare, h.paradigms, h.sorted, h.wiring, hruntime, hseeds, h.bound, bind,
      Except.bind, pure, Except.pure]
  have hexecute : d.execute call n g params =
      (d.executor call n).execute_functional m Dict.empty := by
    simp [Deployment.execute, EmergentFlow.execute, Checks.guard, h.gate, h.materialized,
      h.gate_again, Except.mapError, bind, Except.bind, Deployment.executor]
  rw [hexecute, Executor.execute_functional, hprepare]
  rfl

/-- And the stream is the server's walk. -/
theorem Deployment.Accepts.stream (h : d.Accepts n g params m order w)
    (artifacts : d.artifacts.State) : d.stream call n g params artifacts =
      .ok (walk m w order.length 1 order
        ({ cache := (), artifacts } : WalkState (d.server call n))) := by
  have hprepare : (d.server call n).prepare m none = .ok (order, w) := by
    simp [Server.prepare, Deployment.server, h.gate_again, Checks.guard, h.paradigms, h.sorted,
      h.wiring, h.bound, bind, Except.bind, pure, Except.pure]
  have hstream : d.stream call n g params artifacts =
      (d.server call n).stream m none () artifacts := by
    simp [Deployment.stream, h.materialized, bind, Except.bind]
  rw [hstream]
  simp only [Server.stream, hprepare]
  rfl

/-- A guard of a run that is not rejected lets through. -/
theorem ok_of_not_rejected {α : Type} {x : Except CodegenError α}
    {k : α → Except (ExecutionError ε) (Results V)}
    (h : ∀ error, x.mapError .rejected >>= k ≠ .error (.rejected error)) :
    ∃ a, x = .ok a ∧ ∀ error, k a ≠ .error (.rejected error) := by
  cases x with
  | error e => exact absurd rfl (h e)
  | ok a => exact ⟨a, rfl, h⟩

/-- A run that no guard rejects has passed them all. -/
theorem Deployment.accepts_of_execute
    (h : ∀ error, d.execute call n g params ≠ .error (.rejected error)) :
    ∃ m order w, d.Accepts n g params m order w := by
  have hguard : ∀ ok, (Checks.guard ok (.rejected .validation) : Except (ExecutionError ε) Unit) =
      (Checks.guard ok .validation).mapError .rejected := by
    intro ok
    cases ok <;> rfl
  have hruntime : (nested_executor d.runtime call d.clients n).runtime = d.runtime := by
    cases n <;> rfl
  simp only [Deployment.execute, EmergentFlow.execute, hguard] at h
  obtain ⟨⟨⟩, hgate, h⟩ := ok_of_not_rejected h
  obtain ⟨m, hm, h⟩ := ok_of_not_rejected h
  obtain ⟨⟨⟩, hgate', h⟩ := ok_of_not_rejected h
  obtain ⟨⟨order, w⟩, hprepare, -⟩ := ok_of_not_rejected h
  simp only [Executor.prepare, Checks.bind_eq_ok, hruntime] at hprepare
  obtain ⟨⟨⟩, hparadigms, order', horder, w', hw, ⟨⟩, hbound, hpair⟩ := hprepare
  cases hpair
  exact ⟨m, order, w, Checks.guard_eq_ok.mp hgate, hm, Checks.guard_eq_ok.mp hgate', hparadigms,
    horder, hw, hbound⟩

end Guards

end EmergentFlow
