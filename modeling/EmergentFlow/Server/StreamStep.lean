import EmergentFlow.Server.Stream

/-!
# Server — StreamStep

What one visit of the walk can do, said once. Binding the inputs of a node
only reads the stores, so its answer is a function of the tables and of
what the artifact store holds (`WalkState.binding`); a visit then skips the
node, ends the generator, or runs the node (`visit_cases`).
-/

namespace EmergentFlow

variable {Sub V C ε : Type}

/-! ## Binding as a function of what can be read -/

/-- The value of one source, given the artifact of each node id. -/
def upstream_value (g : Graph Sub) (node_status : Dict String NodeStatus)
    (node_results : Results V) (artifact : String → Option (Dict String V)) (src : PortRef) :
    Except Stop (Option V) :=
  match node_status.get? src.node_id with
  | some .OK | some .CACHED => do
      let value ← (g.source_value node_results src).mapError .raise
      pure (some value)
  | none => do
      let port_name ← (g.source_port_name src).mapError .raise
      pure ((artifact src.node_id).bind (·.get? port_name))
  | some .ERROR | some .SKIPPED => pure none

section Answers

variable {S : LossyStore String (Dict String V) (String × String)} {rt : Runtime V}
  {w : WiringMap} {node_status : Dict String NodeStatus}
  {node_hashes : Dict String (Option String)}
  {resolve : PortRef → Transaction S.State Stop (Option V)}
  {value : (String → Option (Dict String V)) → PortRef → Except Stop (Option V)}

theorem resolve_upstream_value_answers (sv : Server Sub V C ε) (g : Graph Sub)
    (node_status : Dict String NodeStatus) (node_results : Results V) (src : PortRef) :
    sv.artifacts.Answers (resolve_upstream_value sv g node_status node_results src)
      fun view => upstream_value g node_status node_results
        (fun id => view (safe_key sv.hashing.sha256 id)) src := by
  unfold resolve_upstream_value upstream_value
  cases hstatus : node_status.get? src.node_id with
  | none =>
      exact (LossyStore.Answers.lift _).bind fun port_name =>
        (LossyStore.Answers.fetch _).bind fun stored => LossyStore.Answers.pure _
  | some status =>
      cases status with
      | OK | CACHED => exact (LossyStore.Answers.lift _).bind fun value => LossyStore.Answers.pure _
      | ERROR | SKIPPED => exact LossyStore.Answers.pure _

variable (hresolve : ∀ src, S.Answers (resolve src) fun view => value view src)
include hresolve

theorem bind_source_answers (port : Port) (src : PortRef) :
    S.Answers (bind_source resolve node_status node_hashes port src)
      fun view => bind_source (value view) node_status node_hashes port src := by
  apply (hresolve src).bind
  intro found
  cases found with
  | none => exact LossyStore.Answers.raise _
  | some v => exact LossyStore.Answers.pure _

theorem bind_sources_answers (port : Port) (sources : List PortRef) :
    S.Answers (bind_sources resolve node_status node_hashes port sources)
      fun view => bind_sources (value view) node_status node_hashes port sources := by
  induction sources with
  | nil => exact LossyStore.Answers.pure _
  | cons src rest ih =>
      exact (bind_source_answers hresolve port src).bind fun bound =>
        ih.bind fun bounds => LossyStore.Answers.pure _

theorem bind_port_answers (node : Node Sub) (bound : Bound V) (port : Port) :
    S.Answers (bind_port rt w resolve node_status node_hashes node bound port)
      fun view => bind_port rt w (value view) node_status node_hashes node bound port := by
  unfold bind_port
  cases w.upstream ⟨node.id, port.id⟩ with
  | none => exact LossyStore.Answers.raise _
  | some sources =>
      cases port.cardinality with
      | MANY =>
          exact (bind_sources_answers hresolve port sources).bind fun bounds =>
            LossyStore.Answers.pure _
      | ONE =>
          match sources with
          | [] => exact LossyStore.Answers.pure _
          | [src] =>
              exact (bind_source_answers hresolve port src).bind fun bound =>
                LossyStore.Answers.pure _
          | _ :: _ :: _ => exact LossyStore.Answers.raise _

theorem bind_ports_answers (node : Node Sub) (bound : Bound V) (ports : List Port) :
    S.Answers (bind_ports rt w resolve node_status node_hashes node bound ports)
      fun view => bind_ports rt w (value view) node_status node_hashes node bound ports := by
  induction ports generalizing bound with
  | nil => exact LossyStore.Answers.pure _
  | cons port rest ih =>
      exact (bind_port_answers hresolve node bound port).bind fun bound => ih bound

end Answers

/-! ## What a bind answers -/

section Pure

variable {rt : Runtime V} {w : WiringMap} {value : PortRef → Except Stop (Option V)}
  {node_status : Dict String NodeStatus} {node_hashes : Dict String (Option String)}
  {node : Node Sub} {sources : Port → List PortRef}

/-- The value a port is given when its sources have these values. -/
def port_value (rt : Runtime V) (cardinality : Cardinality) (values : List V) : V :=
  match cardinality with
  | .MANY => rt.list_value values
  | .ONE =>
      match values with
      | [] => rt.none_value
      | v :: _ => v

/-- The inputs of a node whose sources have the values `v`. -/
def bound_inputs (rt : Runtime V) (sources : Port → List PortRef) (v : PortRef → V)
    (inputs : Dict String V) (ports : List Port) : Dict String V :=
  ports.foldl (fun inputs port =>
    inputs.set port.name (port_value rt port.cardinality ((sources port).map v))) inputs

/-- The tagged hashes of the sources of a node, port by port. -/
def bound_hashes (sources : Port → List PortRef) (node_hashes : Dict String (Option String))
    (ports : List Port) : List (Option String) :=
  ports.flatMap fun port => (sources port).map fun src =>
    tagged_hash port.name (node_hashes.get? src.node_id).join

theorem bound_hashes_congr {hashes hashes' : Dict String (Option String)} {ports : List Port}
    (h : ∀ port ∈ ports, ∀ src ∈ sources port,
      (hashes.get? src.node_id).join = (hashes'.get? src.node_id).join) :
    bound_hashes sources hashes ports = bound_hashes sources hashes' ports := by
  unfold bound_hashes
  apply List.flatMap_congr
  intro port hport
  apply List.map_congr_left
  intro src hsrc
  rw [h port hport src hsrc]

/-- The wiring of the given ports of a node: what a port lists as sources,
one at most unless it takes many. -/
structure Wired (w : WiringMap) (node : Node Sub) (sources : Port → List PortRef)
    (ports : List Port) : Prop where
  upstream : ∀ port ∈ ports, w.upstream ⟨node.id, port.id⟩ = some (sources port)
  one : ∀ port ∈ ports, port.cardinality = .ONE → (sources port).length ≤ 1

theorem Wired.tail {port : Port} {ports : List Port} (h : Wired w node sources (port :: ports)) :
    Wired w node sources ports :=
  ⟨fun p hp => h.upstream p (List.mem_cons_of_mem _ hp),
    fun p hp => h.one p (List.mem_cons_of_mem _ hp)⟩

/-- A port is bound from its sources, taken in order. -/
theorem bind_port_wired {port : Port} {ports : List Port}
    (h : Wired w node sources (port :: ports)) (bound : Bound V) :
    bind_port rt w value node_status node_hashes node bound port =
      (bind_sources value node_status node_hashes port (sources port)).map fun bounds =>
        { inputs := bound.inputs.set port.name (port_value rt port.cardinality (bounds.map Prod.fst))
          upstream_hashes := bound.upstream_hashes ++ bounds.map Prod.snd } := by
  have hone := h.one port List.mem_cons_self
  simp only [bind_port, port_value, h.upstream port List.mem_cons_self]
  cases hcard : port.cardinality with
  | MANY => cases bind_sources value node_status node_hashes port (sources port) <;> rfl
  | ONE =>
      cases hsources : sources port with
      | nil => simp [bind_sources, pure, Except.pure, Except.map]
      | cons src rest =>
          cases rest with
          | nil =>
              simp only [bind_sources]
              cases bind_source value node_status node_hashes port src <;> rfl
          | cons second rest =>
              have := hone hcard
              simp [hsources] at this

theorem bind_source_eq_ok {port : Port} {src : PortRef} {b : V × Option String} :
    bind_source value node_status node_hashes port src = .ok b ↔
      value src = .ok (some b.1) ∧
        b.2 = tagged_hash port.name (node_hashes.get? src.node_id).join := by
  unfold bind_source
  rcases value src with stop | _ | v
  · simp [bind, Except.bind]
  · simp [bind, Except.bind, throw, throwThe, MonadExceptOf.throw]
  · obtain ⟨b1, b2⟩ := b
    simp [bind, Except.bind, pure, Except.pure, eq_comm]

theorem bind_source_eq_error {port : Port} {src : PortRef} {stop : Stop} :
    bind_source value node_status node_hashes port src = .error stop ↔
      value src = .error stop ∨
        value src = .ok none ∧ stop = .skip (skip_reason node_status src) := by
  unfold bind_source
  rcases value src with stop | _ | v
  · simp [bind, Except.bind]
  · simp [bind, Except.bind, throw, throwThe, MonadExceptOf.throw, eq_comm]
  · simp [bind, Except.bind, pure, Except.pure]

theorem bind_sources_eq_ok {port : Port} {l : List PortRef} {bounds : List (V × Option String)} :
    bind_sources value node_status node_hashes port l = .ok bounds ↔
      List.Forall₂ (fun src b => bind_source value node_status node_hashes port src = .ok b)
        l bounds := by
  rw [← Checks.mapM_eq_ok]
  have heq : bind_sources value node_status node_hashes port l =
      l.mapM (bind_source value node_status node_hashes port) := by
    induction l with
    | nil => rfl
    | cons src rest ih => rw [bind_sources, List.mapM_cons, ih]
  rw [heq]

theorem bind_sources_eq_error {port : Port} {l : List PortRef} {stop : Stop}
    (h : bind_sources value node_status node_hashes port l = .error stop) :
    ∃ pre src post, l = pre ++ src :: post ∧ (∀ s ∈ pre, ∃ v, value s = .ok (some v)) ∧
      bind_source value node_status node_hashes port src = .error stop := by
  induction l with
  | nil => cases h
  | cons src rest ih =>
      rw [bind_sources] at h
      cases hsrc : bind_source value node_status node_hashes port src with
      | error stop' =>
          rw [hsrc] at h
          cases h
          exact ⟨[], src, rest, rfl, nofun, hsrc⟩
      | ok b =>
          cases hrest : bind_sources value node_status node_hashes port rest with
          | error stop' =>
              rw [hsrc, hrest] at h
              cases h
              obtain ⟨pre, src', post, hl, hpre, hstop⟩ := ih hrest
              refine ⟨src :: pre, src', post, by rw [hl]; rfl, ?_, hstop⟩
              exact List.forall_mem_cons.mpr ⟨⟨b.1, (bind_source_eq_ok.mp hsrc).1⟩, hpre⟩
          | ok bounds =>
              rw [hsrc, hrest] at h
              cases h

/-- Sources with values are bound to them. -/
theorem bind_sources_of_values {port : Port} {l : List PortRef} {v : PortRef → V}
    (h : ∀ src ∈ l, value src = .ok (some (v src))) :
    bind_sources value node_status node_hashes port l = .ok (l.map fun src =>
      (v src, tagged_hash port.name (node_hashes.get? src.node_id).join)) := by
  rw [bind_sources_eq_ok, List.forall₂_map_right_iff, List.forall₂_same]
  intro src hsrc
  exact bind_source_eq_ok.mpr ⟨h src hsrc, rfl⟩

/-- A node all of whose sources have values is bound to them. -/
theorem bind_ports_of_values {ports : List Port} {v : PortRef → V}
    (hw : Wired w node sources ports)
    (h : ∀ port ∈ ports, ∀ src ∈ sources port, value src = .ok (some (v src))) (bound : Bound V) :
    bind_ports rt w value node_status node_hashes node bound ports = .ok {
      inputs := bound_inputs rt sources v bound.inputs ports
      upstream_hashes := bound.upstream_hashes ++ bound_hashes sources node_hashes ports } := by
  induction ports generalizing bound with
  | nil => simp [bind_ports, bound_inputs, bound_hashes, pure, Except.pure]
  | cons port rest ih =>
      rw [bind_ports, bind_port_wired hw, bind_sources_of_values (h port List.mem_cons_self)]
      simp only [Except.map, bind, Except.bind]
      rw [ih hw.tail fun p hp => h p (List.mem_cons_of_mem _ hp)]
      simp [bound_inputs, bound_hashes, Function.comp_def]

/-- A node that can be bound has a value for every source. -/
theorem value_of_bind_ports {ports : List Port} (hw : Wired w node sources ports)
    {bound bound' : Bound V}
    (h : bind_ports rt w value node_status node_hashes node bound ports = .ok bound') :
    ∀ port ∈ ports, ∀ src ∈ sources port, ∃ v, value src = .ok (some v) := by
  induction ports generalizing bound with
  | nil => simp
  | cons port rest ih =>
      rw [bind_ports, bind_port_wired hw] at h
      obtain ⟨b, hb, hrest⟩ := Checks.bind_eq_ok.mp h
      cases hbounds : bind_sources value node_status node_hashes port (sources port) with
      | error stop => simp [hbounds, Except.map] at hb
      | ok bounds =>
          intro p hp src hsrc
          rcases List.mem_cons.mp hp with rfl | hp
          · rw [bind_sources_eq_ok, ← Checks.mapM_eq_ok] at hbounds
            obtain ⟨b, -, hb⟩ := Checks.mem_left_of_mapM hbounds hsrc
            exact ⟨b.1, (bind_source_eq_ok.mp hb).1⟩
          · exact ih hw.tail hrest p hp src hsrc

/-- The values of the sources, as a function. -/
theorem exists_values (rt : Runtime V) {ports : List Port}
    (h : ∀ port ∈ ports, ∀ src ∈ sources port, ∃ v, value src = .ok (some v)) :
    ∃ v : PortRef → V, ∀ port ∈ ports, ∀ src ∈ sources port, value src = .ok (some (v src)) := by
  refine ⟨fun src => (value src).toOption.join.getD rt.none_value, fun port hport src hsrc => ?_⟩
  obtain ⟨v, hv⟩ := h port hport src hsrc
  simp only [hv, Except.toOption, Option.join_some, Option.getD_some]

/-- A node that cannot be bound has a first source without a value, which stops it. -/
theorem bind_ports_eq_error {ports : List Port} (hw : Wired w node sources ports)
    {bound : Bound V} {stop : Stop}
    (h : bind_ports rt w value node_status node_hashes node bound ports = .error stop) :
    ∃ pre src post, ports.flatMap sources = pre ++ src :: post ∧
      (∀ s ∈ pre, ∃ v, value s = .ok (some v)) ∧ (value src = .error stop ∨
        value src = .ok none ∧ stop = .skip (skip_reason node_status src)) := by
  induction ports generalizing bound with
  | nil => cases h
  | cons port rest ih =>
      rw [bind_ports, bind_port_wired hw] at h
      rw [List.flatMap_cons]
      cases hbounds : bind_sources value node_status node_hashes port (sources port) with
      | error stop' =>
          rw [hbounds] at h
          cases h
          obtain ⟨pre, src, post, hl, hpre, hstop⟩ := bind_sources_eq_error hbounds
          exact ⟨pre, src, post ++ rest.flatMap sources, by rw [hl, List.append_assoc]; rfl, hpre,
            bind_source_eq_error.mp hstop⟩
      | ok bounds =>
          rw [hbounds] at h
          obtain ⟨pre, src, post, hl, hpre, hstop⟩ := ih hw.tail h
          refine ⟨sources port ++ pre, src, post, by rw [hl, List.append_assoc], ?_, hstop⟩
          intro s hs
          rcases List.mem_append.mp hs with hs | hs
          · rw [bind_sources_eq_ok, ← Checks.mapM_eq_ok] at hbounds
            obtain ⟨b, -, hb⟩ := Checks.mem_left_of_mapM hbounds hs
            exact ⟨b.1, (bind_source_eq_ok.mp hb).1⟩
          · exact hpre s hs

end Pure

/-! ## Two binds

The inputs of a node depend on the values of its sources only, and so does
the reason it is skipped for; its hashes do not count. -/

section Congr

variable {m : Type → Type} [Monad m] [LawfulMonad m] [MonadExcept Stop m] (rt : Runtime V)
  {w : WiringMap} {node : Node Sub} {resolve resolve' : PortRef → m (Option V)}
  {node_status node_status' : Dict String NodeStatus}
  (node_hashes node_hashes' : Dict String (Option String))
  (throw_bind : ∀ {α β : Type} (stop : Stop) (f : α → m β), throw stop >>= f = throw stop)
include throw_bind

theorem bind_source_congr (port : Port) {src : PortRef}
    (h : resolve src = resolve' src ∧ skip_reason node_status src = skip_reason node_status' src) :
    Prod.fst <$> bind_source resolve node_status node_hashes port src =
      Prod.fst <$> bind_source resolve' node_status' node_hashes' port src := by
  simp only [bind_source, h.1, h.2, map_eq_pure_bind, bind_assoc]
  congr 1
  funext found
  cases found with
  | none => simp only [throw_bind]
  | some v => simp only [pure_bind]

theorem bind_sources_congr (port : Port) {l : List PortRef}
    (h : ∀ src ∈ l, resolve src = resolve' src ∧
      skip_reason node_status src = skip_reason node_status' src) :
    List.map Prod.fst <$> bind_sources resolve node_status node_hashes port l =
      List.map Prod.fst <$> bind_sources resolve' node_status' node_hashes' port l := by
  induction l with
  | nil => rfl
  | cons src rest ih =>
      have hsrc := bind_source_congr node_hashes node_hashes' throw_bind port
        (h src List.mem_cons_self)
      have hrest := ih fun src hsrc => h src (List.mem_cons_of_mem _ hsrc)
      have hcons : ∀ (r : PortRef → m (Option V)) s hs,
          List.map Prod.fst <$> bind_sources r s hs port (src :: rest) =
            (Prod.fst <$> bind_source r s hs port src) >>= fun v =>
              (v :: ·) <$> (List.map Prod.fst <$> bind_sources r s hs port rest) := by
        intro r s hs
        simp only [bind_sources, map_bind, map_pure, bind_map_left]
        congr 1
        funext b
        rw [← comp_map, map_eq_pure_bind]
        rfl
      rw [hcons, hcons, hsrc, hrest]

theorem bind_port_congr (port : Port)
    (h : ∀ l, w.upstream ⟨node.id, port.id⟩ = some l → ∀ src ∈ l, resolve src = resolve' src ∧
      skip_reason node_status src = skip_reason node_status' src)
    {bound bound' : Bound V} (hbound : bound.inputs = bound'.inputs) :
    Bound.inputs <$> bind_port rt w resolve node_status node_hashes node bound port =
      Bound.inputs <$> bind_port rt w resolve' node_status' node_hashes' node bound' port := by
  unfold bind_port
  cases hup : w.upstream ⟨node.id, port.id⟩ with
  | none => simp only [map_eq_pure_bind, throw_bind]
  | some l =>
      have hl := h l hup
      cases port.cardinality with
      | MANY =>
          -- the tagged hashes may differ, the values and the skips do not
          have hsources := bind_sources_congr node_hashes node_hashes' throw_bind port hl
          have hmap : ∀ (x : m (List (V × Option String))) (inputs : Dict String V),
              (x >>= fun bounds =>
                pure (inputs.set port.name (rt.list_value (bounds.map Prod.fst)))) =
                (fun values => inputs.set port.name (rt.list_value values)) <$>
                  (List.map Prod.fst <$> x) := by
            intro x inputs
            rw [← comp_map, map_eq_pure_bind]
            rfl
          simp only [map_bind, map_pure]
          rw [hmap, hmap, hsources, hbound]
      | ONE =>
          match l with
          | [] => simp only [map_pure, hbound]
          | [src] =>
              have hsrc := bind_source_congr node_hashes node_hashes' throw_bind port
                (hl src List.mem_cons_self)
              have hmap : ∀ (x : m (V × Option String)) (inputs : Dict String V),
                  (x >>= fun b => pure (inputs.set port.name b.1)) =
                    (fun value => inputs.set port.name value) <$> (Prod.fst <$> x) := by
                intro x inputs
                rw [← comp_map, map_eq_pure_bind]
                rfl
              simp only [map_bind, map_pure]
              rw [hmap, hmap, hsrc, hbound]
          | _ :: _ :: _ => simp only [map_eq_pure_bind, throw_bind]

theorem bind_ports_congr (ports : List Port)
    (h : ∀ port ∈ ports, ∀ l, w.upstream ⟨node.id, port.id⟩ = some l → ∀ src ∈ l,
      resolve src = resolve' src ∧ skip_reason node_status src = skip_reason node_status' src)
    {bound bound' : Bound V} (hbound : bound.inputs = bound'.inputs) :
    Bound.inputs <$> bind_ports rt w resolve node_status node_hashes node bound ports =
      Bound.inputs <$> bind_ports rt w resolve' node_status' node_hashes' node bound' ports := by
  induction ports generalizing bound bound' with
  | nil => simp only [bind_ports, map_pure, hbound]
  | cons port rest ih =>
      have hport := bind_port_congr rt node_hashes node_hashes' throw_bind port
        (h port List.mem_cons_self) hbound
      have hrest := fun {b b' : Bound V} => @ih (fun p hp => h p (List.mem_cons_of_mem _ hp)) b b'
      -- both sides go on from the inputs alone
      have hgo : ∀ (x : m (Bound V)) (k k' : Bound V → m (Bound V)),
          (∀ b b', b.inputs = b'.inputs → Bound.inputs <$> k b = Bound.inputs <$> k' b') →
            Bound.inputs <$> (x >>= k) =
              (Bound.inputs <$> x) >>= fun inputs => Bound.inputs <$> k' { inputs } := by
        intro x k k' hk
        rw [map_bind, bind_map_left]
        congr 1
        funext b
        exact hk b { inputs := b.inputs } rfl
      simp only [bind_ports]
      rw [hgo _ _ _ fun b b' hb => hrest hb, hport,
        hgo _ _ _ fun b b' hb => (hrest rfl).symm.trans (hrest hb)]

end Congr

/-! ## One visit -/

section Visit

variable {sv : Server Sub V C ε} {g : Graph Sub} {w : WiringMap} {node : Node Sub} {id : String}
  {st : WalkState sv}

/-- The stored artifact of a node id. -/
def WalkState.artifact (st : WalkState sv) (id : String) : Option (Dict String V) :=
  sv.artifacts.view st.artifacts (safe_key sv.hashing.sha256 id)

/-- The value of one source in this state. -/
def WalkState.value (st : WalkState sv) (g : Graph Sub) (src : PortRef) :
    Except Stop (Option V) :=
  upstream_value g st.node_status st.node_results st.artifact src

/-- The inputs of a node in this state. -/
def WalkState.binding (st : WalkState sv) (g : Graph Sub) (w : WiringMap) (node : Node Sub) :
    Except Stop (Bound V) :=
  bind_ports sv.runtime w (st.value g) st.node_status st.node_hashes node {} node.in_ports

/-- The execution of a node, from the lookup of its definition on. -/
def Server.run_node (sv : Server Sub V C ε) (node : Node Sub) (inputs : Dict String V) :
    Except (Failure ε) (Dict String V) := do
  let definition ← Checks.require (sv.runtime.registry node.type) (.unregistered node.type)
  sv.execute_node definition node inputs

/-- The key of a node in the cache, from the lookup of its definition on. -/
def Server.node_key (sv : Server Sub V C ε) (node : Node Sub)
    (upstream_hashes : List (Option String)) : Option String :=
  (sv.runtime.registry node.type).bind fun definition =>
    sv.hashing.cache_hash definition node upstream_hashes

/-- What the `try` around a node can do: the event it yields and the state
it leaves. -/
inductive Ran (st : WalkState sv) (node : Node Sub) (id : String) (bound : Bound V) :
    NodeEvent V ε → WalkState sv → Prop
  /-- The node is not in the cache, and raises. -/
  | failed {e : Failure ε} {cache : sv.cache.State}
      (miss : ∀ key, sv.node_key node bound.upstream_hashes = some key →
        sv.cache.view st.cache key = none)
      (run : sv.run_node node bound.inputs = .error e) (caught : sv.catches e = true)
      (kept : sv.cache.view cache = sv.cache.view st.cache) :
      Ran st node id bound (.error id (node.label.getD "") e) ({ st with cache }.fail id)
  /-- The node is in the cache. -/
  | hit {key : String} {outputs : Dict String V} {cache : sv.cache.State}
      (hash : sv.node_key node bound.upstream_hashes = some key)
      (found : sv.cache.view st.cache key = some outputs)
      (kept : sv.cache.view cache = sv.cache.view st.cache) :
      Ran st node id bound (.ok id (node.label.getD "") outputs true)
        ({ st with cache }.record id (node.label.getD "") outputs (some key) true)
  /-- The node is not in the cache, and returns. -/
  | fresh {outputs : Dict String V} {cache : sv.cache.State}
      (miss : ∀ key, sv.node_key node bound.upstream_hashes = some key →
        sv.cache.view st.cache key = none)
      (run : sv.run_node node bound.inputs = .ok outputs)
      (stored : ∀ key found, sv.cache.view cache key = some found →
        sv.node_key node bound.upstream_hashes = some key ∧ found = outputs ∨
          sv.cache.view st.cache key = some found) :
      Ran st node id bound (.ok id (node.label.getD "") outputs false)
        ({ st with cache }.record id (node.label.getD "") outputs
          (sv.node_key node bound.upstream_hashes) false)

/-- The node is not in the cache, and raises what the `try` does not catch. -/
structure Interrupted (st : WalkState sv) (node : Node Sub) (bound : Bound V) (e : Failure ε)
    (cache : sv.cache.State) : Prop where
  miss : ∀ key, sv.node_key node bound.upstream_hashes = some key →
    sv.cache.view st.cache key = none
  run : sv.run_node node bound.inputs = .error e
  uncaught : sv.catches e = false
  kept : sv.cache.view cache = sv.cache.view st.cache

/-- What the `try` comes to: an event, or an exception that it lets through. -/
def Attempted (st : WalkState sv) (node : Node Sub) (id : String) (bound : Bound V)
    (r : Except (Failure ε) (NodeEvent V ε) × WalkState sv) : Prop :=
  (∃ event st', r = (.ok event, st') ∧ Ran st node id bound event st') ∨
    ∃ e cache, r = (.error e, { st with cache }) ∧ Interrupted st node bound e cache

/-- A node that is not in the cache raises or returns. -/
theorem conclude_cases {bound : Bound V} {cache : sv.cache.State} {hash : Option String}
    (hhash : sv.node_key node bound.upstream_hashes = hash)
    (miss : ∀ key, hash = some key → sv.cache.view st.cache key = none)
    (kept : sv.cache.view cache = sv.cache.view st.cache) :
    Attempted st node id bound
      (conclude { st with cache } node id hash (sv.run_node node bound.inputs)) := by
  subst hhash
  cases hrun : sv.run_node node bound.inputs with
  | error e =>
      cases hcaught : sv.catches e with
      | false => exact .inr ⟨e, cache, by simp [conclude, hcaught], miss, hrun, hcaught, kept⟩
      | true => exact .inl ⟨_, _, by simp [conclude, hcaught], .failed miss hrun hcaught kept⟩
  | ok outputs =>
      refine .inl ⟨_, _, rfl, ?_⟩
      cases hkey : sv.node_key node bound.upstream_hashes with
      | none =>
          have hran : Ran st node id bound _ _ :=
            Ran.fresh miss hrun fun key found h => .inr (kept ▸ h)
          rwa [hkey] at hran
      | some key =>
          have hstored := sv.cache.forall_view_put
            (P := fun key' found => sv.node_key node bound.upstream_hashes = some key' ∧
              found = outputs ∨ sv.cache.view st.cache key' = some found)
            (s := cache) (k := key) (a := outputs) (n := (node.id, node.label.getD ""))
            (fun key' found h => .inr (kept ▸ h)) (.inl ⟨hkey, rfl⟩)
          have hran : Ran st node id bound _ _ := Ran.fresh miss hrun hstored
          rwa [hkey] at hran

theorem attempt_cases (st : WalkState sv) (node : Node Sub) (id : String) (bound : Bound V) :
    Attempted st node id bound (attempt st node id bound) := by
  unfold attempt
  cases hreg : sv.runtime.registry node.type with
  | none =>
      have hkey : sv.node_key node bound.upstream_hashes = none := by
        simp [Server.node_key, hreg]
      have hrun : sv.run_node node bound.inputs = .error (.unregistered node.type) := by
        simp [Server.run_node, hreg, bind, Except.bind]
      exact .inl ⟨_, _, rfl, .failed (by simp [hkey]) hrun rfl rfl⟩
  | some definition =>
      have hrun : sv.run_node node bound.inputs = sv.execute_node definition node bound.inputs := by
        simp [Server.run_node, hreg, bind, Except.bind]
      have hkey : sv.node_key node bound.upstream_hashes =
          sv.hashing.cache_hash definition node bound.upstream_hashes := by
        simp [Server.node_key, hreg]
      simp only [← hkey]
      cases hhash : sv.node_key node bound.upstream_hashes with
      | none =>
          -- a node that is not cacheable: there is nothing to look up
          simp only [WalkState.lookup, ← hrun]
          exact conclude_cases hhash nofun rfl
      | some key =>
          have hget := sv.cache.get_eq st.cache key
          have hkept := sv.cache.view_get st.cache key
          simp only [WalkState.lookup]
          cases hfound : (sv.cache.get st.cache key).1 with
          | some outputs => exact .inl ⟨_, _, rfl, .hit hhash (hget ▸ hfound) hkept⟩
          | none =>
              simp only [← hrun]
              refine conclude_cases hhash (fun key' hkey' => ?_) hkept
              rw [← Option.some.inj hkey', ← hget, hfound]

/-- The artifact store once the inputs of a node have been read. -/
def WalkState.read_artifacts (st : WalkState sv) (g : Graph Sub) (w : WiringMap)
    (node : Node Sub) : sv.artifacts.State := (st.bind g w node st.artifacts).2

theorem WalkState.bind_answers (st : WalkState sv) (g : Graph Sub) (w : WiringMap)
    (node : Node Sub) : (st.bind g w node st.artifacts).1 = st.binding g w node ∧
      sv.artifacts.Reads st.artifacts (st.read_artifacts g w node) :=
  bind_ports_answers (resolve_upstream_value_answers sv g st.node_status st.node_results) node {}
    node.in_ports st.artifacts

/-- What a visit can do to a node of the graph. -/
inductive Visited (g : Graph Sub) (w : WiringMap) (total index : Nat) (id : String)
    (node : Node Sub) (st : WalkState sv) : Trace sv → Prop
  | escaped {failure : LookupFailure} (bind : st.binding g w node = .error (.raise failure)) :
      Visited g w total index id node st
        ⟨[], { st with artifacts := st.read_artifacts g w node }, some (id, .lookup failure)⟩
  | skipped {reason : SkipReason} (bind : st.binding g w node = .error (.skip reason)) :
      Visited g w total index id node st ⟨[.skip id (node.label.getD "") reason],
        { st with
          artifacts := st.read_artifacts g w node
          node_status := st.node_status.set id .SKIPPED }, none⟩
  | ran {bound : Bound V} {event : NodeEvent V ε} {st' : WalkState sv}
      (bind : st.binding g w node = .ok bound)
      (ran : Ran { st with artifacts := st.read_artifacts g w node } node id bound event st') :
      Visited g w total index id node st
        ⟨[.start id (node.label.getD "") index total, event], st', none⟩
  | interrupted {bound : Bound V} {e : Failure ε} {cache : sv.cache.State}
      (bind : st.binding g w node = .ok bound)
      (interrupted :
        Interrupted { st with artifacts := st.read_artifacts g w node } node bound e cache) :
      Visited g w total index id node st ⟨[.start id (node.label.getD "") index total],
        { st with artifacts := st.read_artifacts g w node, cache }, some (id, e)⟩

theorem visit_cases (w : WiringMap) (st : WalkState sv) (hnode : g.nodes.get? id = some node)
    (total index : Nat) :
    Visited g w total index id node st (visit g w total index id st) := by
  have hbinding := (st.bind_answers g w node).1
  have hartifacts : (st.bind g w node st.artifacts).2 = st.read_artifacts g w node := rfl
  simp only [visit, hnode]
  generalize st.bind g w node st.artifacts = r at hbinding hartifacts
  obtain ⟨answer, artifacts⟩ := r
  subst hartifacts
  rcases answer with stop | bound
  · cases stop with
    | skip reason => exact .skipped hbinding.symm
    | raise failure => exact .escaped hbinding.symm
  · rcases attempt_cases { st with artifacts := st.read_artifacts g w node } node id bound with
      ⟨event, st', hattempt, hran⟩ | ⟨e, cache, hattempt, hinterrupted⟩
    · simp only [hattempt]
      exact .ran hbinding.symm hran
    · simp only [hattempt]
      exact .interrupted hbinding.symm hinterrupted

end Visit

end EmergentFlow
