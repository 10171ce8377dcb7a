import EmergentFlow.Codegen.Gate

/-!
# Codegen — Rejection

`compile_to_code` and `execute` over one registry. Both ask the gate and
make the same guards, but a node of an unregistered type, or a composite
whose subgraph is malformed, is met by the compiler while it assembles the
module and by the executor only when the walk comes to that node.
-/

namespace EmergentFlow

open Agreement Checks

variable {Sub V C F ε ε' : Type}

/-! ## Shared errors -/

/-- What both walks raise about a graph; all else is a node's own. -/
inductive StructuralError where
  | codegen (error : CodegenError)
  | unregistered (type : String)
  deriving DecidableEq, Repr

def AssemblyFailure.structural : AssemblyFailure ε → Option StructuralError
  | .codegen error => some (.codegen error)
  | .unregistered type => some (.unregistered type)
  | .lookup _ | .param_name _ | .raised _ => none

def Failure.structural : Failure ε → Option StructuralError
  | .codegen error => some (.codegen error)
  | .unregistered type => some (.unregistered type)
  | .lookup _ | .raised _ | .composite_execute | .many_clients _ => none

def ExecutionError.structural (x : ExecutionError ε) : Option StructuralError := x.cause.structural

theorem dispatch_own {call : Behaviour Sub V C ε} {clients : Clients C} {d : NodeDefinition}
    {node : Node Sub} {inputs : Dict String V} :
    RaisesOnly (Failure.structural · = none) (dispatch call clients d node inputs) := by
  have hexecute : ∀ client,
      RaisesOnly (Failure.structural · = none) (definition_execute call node inputs client) := by
    intro client
    rw [definition_execute]
    split
    · exact .error rfl
    · exact .mapError fun _ _ => rfl
  rw [dispatch]
  split
  · exact hexecute _
  · exact hexecute _
  · exact .error rfl

/-! ## One node -/

/-- A params table that knows every reference of a node. -/
theorem param_expr_refs_of_mem {names : Dict String String} {node : Node Sub}
    (h : ∀ param ∈ node.params, ∀ ref, param.ref = some ref → ref ∈ names.keys) :
    ∃ refs, param_expr_refs names node = .ok refs := by
  refine foldlM_exists (fun refs param hparam => ?_) Dict.empty
  rw [param_expr_ref]
  cases href : param.ref with
  | none => exact ⟨refs, rfl⟩
  | some ref =>
      obtain ⟨name, hname⟩ := (Dict.mem_keys_iff _).mp (h param hparam ref href)
      exact ⟨refs.set param.name name, by simp only [hname, require_some]; rfl⟩

section Level

variable {a : Assembler Sub F ε'} {x : Executor Sub V C ε} {f : Node Sub → Node Sub}
  {g : Graph Sub} {names : Dict String String}

/-- The two meanings of a composite node agree. -/
def CompositesAgree (a : Assembler Sub F ε') (x : Executor Sub V C ε) (f : Node Sub → Node Sub)
    (names : Dict String String) (node : Node Sub) : Prop :=
  ∀ ctx inputs, Agrees AssemblyFailure.structural Failure.structural (fun _ _ => True)
    (a.composite node ctx names) (x.composite (f node) inputs)

theorem fragment_agrees (hregistry : a.registry = x.runtime.registry) (hf : KeepsFrame f)
    {node : Node Sub} (hcomposite : CompositesAgree a x f names node) (ctx : CodegenContext)
    (inputs : Dict String V) :
    Agrees AssemblyFailure.structural Failure.structural (fun _ _ => True)
      (a.fragment node ctx names) (x.run_node (f node) inputs) := by
  rw [Assembler.fragment, Executor.run_node, hf.type, hregistry]
  split
  · exact hcomposite ctx inputs
  · cases x.runtime.registry node.type with
    | none => exact .inr (.inr rfl)
    | some d => exact .own (.mapError fun _ _ => rfl) dispatch_own

/-- The same node, emitted and visited. -/
theorem emit_agrees (hregistry : a.registry = x.runtime.registry) (hf : KeepsFrame f)
    (hrefs : ∀ id node, g.nodes.get? id = some node →
      ∀ param ∈ node.params, ∀ ref, param.ref = some ref → ref ∈ names.keys)
    (hcomposite : ∀ id node, g.nodes.get? id = some node → CompositesAgree a x f names node)
    (w : WiringMap) (overrides : Dict (String × String) String) (seeds : Dict (String × String) V)
    (results : Results V) (id : String) :
    Agrees AssemblyFailure.structural Failure.structural (fun _ _ => True)
      (a.emit g w overrides names id) (x.visit (g.map_nodes f) w seeds results id) := by
  rw [Assembler.emit, Executor.visit, Graph.get?_map_nodes]
  refine Agrees.own_left (.require rfl) fun node hnode => ?_
  rw [require_eq_ok] at hnode
  refine Agrees.own_left (.mapError fun _ _ => rfl) fun ctx _ => ?_
  obtain ⟨refs, hnames⟩ := param_expr_refs_of_mem (hrefs id node hnode)
  rw [hnames, hnode]
  refine Agrees.own_right (.require rfl) fun node' hnode' => ?_
  obtain rfl : f node = node' := by simpa using hnode'
  refine Agrees.own_right (.mapError fun _ _ => rfl) fun inputs _ => ?_
  exact fragment_agrees hregistry hf (hcomposite id node hnode) _ inputs

/-! ## One level -/

theorem prepare_map_nodes (hf : KeepsFrame f) {registry : NodeRegistry}
    {bound : String → String → Bool} :
    (g.map_nodes f).prepare registry bound = g.prepare registry bound := by
  simp only [Graph.prepare, Graph.check_paradigms_map_nodes hf, topological_sort_map_nodes,
    build_wiring_map_map_nodes hf, Graph.check_bound_inputs_map_nodes hf]

/-- The compiler and the executor make the same guards first. -/
theorem prepare_agrees (hregistry : a.registry = x.runtime.registry) (hf : KeepsFrame f)
    {overrides : Dict (String × String) String} {seeds : Dict (String × String) V}
    (hbound : ∀ key, overrides.contains key = seeds.contains key) :
    x.prepare (g.map_nodes f) seeds = a.prepare g overrides := by
  have h : a.prepare g overrides =
      g.prepare a.registry fun id name => overrides.contains (id, name) := rfl
  rw [h, hregistry, ← prepare_map_nodes hf]
  simp only [hbound]
  rfl

/-- Assembling a graph and running its image agree when the composites do. -/
theorem assemble_agrees_level (hregistry : a.registry = x.runtime.registry) (hf : KeepsFrame f)
    (hrefs : ∀ id node, g.nodes.get? id = some node →
      ∀ param ∈ node.params, ∀ ref, param.ref = some ref → ref ∈ names.keys)
    (hcomposite : ∀ id node, g.nodes.get? id = some node → CompositesAgree a x f names node)
    {overrides : Dict (String × String) String} {seeds : Dict (String × String) V}
    (hbound : ∀ key, overrides.contains key = seeds.contains key) :
    Agrees AssemblyFailure.structural ExecutionError.structural (fun _ _ => True)
      (a.assemble g overrides names) (x.execute_functional (g.map_nodes f) seeds) := by
  rw [Assembler.assemble, Executor.execute_functional, prepare_agrees hregistry hf hbound]
  refine Agrees.bind_same (fun _ => rfl) fun (order, w) _ => ?_
  refine Agrees.bind_own (R := fun _ _ => True) ?_ fun fragments _ => ?_
  · -- round by round, over the one visiting order
    refine Agrees.foldlM (fun fragments results id _ _ => ?_) trivial
    have hround : Agrees AssemblyFailure.structural ExecutionError.structural (fun _ _ => True)
        (a.emit g w overrides names id)
        ((x.visit (g.map_nodes f) w seeds results id).mapError (.failed id)) :=
      (emit_agrees hregistry hf hrefs hcomposite w overrides seeds results id).mapError_right
        fun _ => rfl
    exact hround.bind fun _ _ _ _ _ => trivial
  · refine .bind (.mapM fun name _ => ?_) fun _ _ => .ok
    exact .bind (.require rfl) fun _ _ => .ok

end Level

/-! ## Composites -/

/-- The nested function supplies the ports that the run seeds. -/
theorem supplied_iff_seeded {f : Node Sub → Node Sub} (hf : KeepsFrame f) {sub : Graph Sub}
    {node_id : String} {inputs : Dict String V} {refs : List PortRef} {ports : List Port} {k : Nat}
    (hlength : ports.length = refs.length)
    {overrides overrides' : Dict (String × String) String} {seeds seeds' : Dict (String × String) V}
    (hstart : ∀ key, overrides.contains key = seeds.contains key)
    (hoverrides : (refs.zipIdx k).foldlM (param_override sub) overrides = .ok overrides')
    (hseeds : (ports.zip refs).foldlM (seed_input (sub.map_nodes f) node_id inputs) seeds =
      .ok seeds') :
    ∀ key, overrides'.contains key = seeds'.contains key := by
  induction refs generalizing ports k overrides seeds with
  | nil =>
      obtain rfl : ports = [] := List.length_eq_zero_iff.mp hlength
      cases hoverrides
      cases hseeds
      exact hstart
  | cons ref refs ih =>
      obtain ⟨port, ports, rfl⟩ := List.exists_cons_of_length_eq_add_one hlength
      rw [List.zipIdx_cons, List.foldlM_cons] at hoverrides
      rw [List.zip_cons_cons, List.foldlM_cons] at hseeds
      obtain ⟨next, hnext, hoverrides⟩ := bind_eq_ok.mp hoverrides
      obtain ⟨next', hnext', hseeds⟩ := bind_eq_ok.mp hseeds
      refine ih (by simpa using hlength) ?_ hoverrides hseeds
      obtain ⟨name, hname, hset⟩ := bind_eq_ok.mp hnext
      obtain ⟨name', hname', hset'⟩ := bind_eq_ok.mp hnext'
      obtain ⟨value, -, hset'⟩ := bind_eq_ok.mp hset'
      cases hset
      cases hset'
      -- both loops key an entry by the port the boundary names, under the name it has
      obtain rfl : name = name' := by
        rw [Graph.source_port_name_map_nodes hf, hname, Except.ok.injEq] at hname'
        exact hname'
      intro key
      rw [Dict.contains, Dict.contains, Dict.get?_set, Dict.get?_set]
      split
      · rfl
      · exact hstart key

section Composite

variable {assemble : Graph Sub → Dict (String × String) String → Dict String String →
    Except (AssemblyFailure ε') (AssembledModule F)}
  {nest : Node (Graph Sub) → CodegenContext → CompositeBoundary → AssembledModule F → Except ε' F}
  {run : Graph Sub → Dict (String × String) V → Except (ExecutionError ε) (Results V)}
  {f : Node Sub → Node Sub} {resolved : Dict String ParamValue} {names : Dict String String}

/-- A composite node compiles as it runs when its subgraph does. -/
theorem composite_agrees (hf : KeepsFrame f) {node : Node (Graph Sub)}
    (hinner : ∀ sub, node.subgraph = some sub → ∀ overrides seeds,
      (∀ key, overrides.contains key = seeds.contains key) →
        Agrees AssemblyFailure.structural ExecutionError.structural (fun _ _ => True)
          (assemble sub overrides names) (run (sub.map_nodes f) seeds))
    (ctx : CodegenContext) (inputs : Dict String V) :
    Agrees AssemblyFailure.structural Failure.structural (fun _ _ => True)
      (codegen_composite assemble nest node ctx names)
      (execute_composite run (node.bake_with (Graph.map_nodes f) resolved) inputs) := by
  have hframe := keepsFrame_bake (Graph.map_nodes f) resolved
  rw [codegen_composite, execute_composite, hframe.in_ports, hframe.out_ports, hframe.id,
    Node.bake_with]
  cases hsub : node.subgraph with
  | none => exact .inr (.inr rfl)
  | some sub =>
      refine Agrees.bind (R := fun s s' => s = sub ∧ s' = sub.map_nodes f) ⟨rfl, rfl⟩ ?_
      rintro _ _ - - ⟨rfl, rfl⟩
      rw [resolve_composite_boundary_map_nodes hf]
      refine Agrees.bind_same (fun _ => rfl) fun boundary _ => ?_
      refine Agrees.bind (.guard rfl) fun _ _ hin _ _ => ?_
      refine Agrees.bind (.guard rfl) fun _ _ _ _ _ => ?_
      -- an override or a seed that cannot be made is an error of that side alone
      refine Agrees.own_left (.mapError fun _ _ => rfl) fun overrides hoverrides => ?_
      refine Agrees.own_right (.mapError fun _ _ => rfl) fun seeds hseeds => ?_
      have hlength : node.in_ports.length = boundary.dangling_in.length := by
        simpa using guard_eq_ok.mp hin
      rw [Checks.mapError_eq_ok] at hoverrides hseeds
      have hbound : ∀ key, overrides.contains key = seeds.contains key := by
        refine supplied_iff_seeded hf hlength ?_ hoverrides hseeds
        exact fun _ => rfl
      refine Agrees.bind ((hinner _ hsub overrides seeds hbound).mapError_right fun _ => rfl) ?_
      intro _ _ _ _ _
      exact .own (.mapError fun _ _ => rfl) (.mapError fun _ _ => rfl)

end Composite

/-! ## All levels -/

/-- One node of a graph nested at most `n` deep, baked. -/
def bake_node (resolved : Dict String ParamValue) : (n : Nat) → Node (Nested n) → Node (Nested n)
  | 0 => Node.bake_with id resolved
  | n + 1 => Node.bake_with (bake resolved n) resolved

theorem bake_eq_map_nodes (resolved : Dict String ParamValue) (n : Nat) :
    bake resolved n = Graph.map_nodes (bake_node resolved n) := by
  cases n <;> rfl

theorem keepsFrame_bake_node (resolved : Dict String ParamValue) (n : Nat) :
    KeepsFrame (bake_node resolved n) := by
  cases n <;> exact keepsFrame_bake _ resolved

/-- Where every reference resolves, assembling a graph and running its
baked copy agree. -/
theorem assemble_agrees (rt : Runtime V) {em : Emission F ε'}
    {call : ∀ n, Behaviour (Nested n) V C ε} {clients : Clients C}
    {resolved : Dict String ParamValue} {names : Dict String String} {n : Nat}
    {g : Graph (Nested n)} (hrefs : RefsResolved names.keys n g)
    {overrides : Dict (String × String) String} {seeds : Dict (String × String) V}
    (hbound : ∀ key, overrides.contains key = seeds.contains key) :
    Agrees AssemblyFailure.structural ExecutionError.structural (fun _ _ => True)
      ((nested_assembler rt.registry em n).assemble g overrides names)
      ((nested_executor rt call clients n).execute_functional (bake resolved n g) seeds) := by
  induction n generalizing overrides seeds with
  | zero =>
      refine assemble_agrees_level rfl (keepsFrame_bake_node resolved 0)
        (fun id node h => (hrefs id node h).1) (fun id node _ ctx inputs => ?_) hbound
      exact .inr (.inr rfl)
  | succ n ih =>
      refine assemble_agrees_level rfl (keepsFrame_bake_node resolved (n + 1))
        (fun id node h => (hrefs id node h).1) (fun id node h => ?_) hbound
      intro ctx inputs
      have hnode : bake_node resolved (n + 1) node =
          node.bake_with (Graph.map_nodes (bake_node resolved n)) resolved := by
        rw [← bake_eq_map_nodes]
        rfl
      rw [hnode]
      refine composite_agrees (keepsFrame_bake_node resolved n) ?_ ctx inputs
      intro sub hsub overrides seeds hinner
      have hsubrefs : RefsResolved names.keys n sub := (hrefs id node h).2 sub hsub
      exact bake_eq_map_nodes resolved n ▸ ih hsubrefs hinner

/-! ## References -/

/-- The error is about a reference or an override of a graph param. -/
def StructuralError.of_refs : StructuralError → Bool
  | .codegen (.undefined_ref _ _ _) | .codegen (.unknown_overrides _) => true
  | _ => false

/-- An error behind which there is none about references. -/
def NotOfRefs (kind : Option StructuralError) : Prop := kind.any (·.of_refs) = false

theorem build_wiring_map_not_of_refs {g : Graph Sub} :
    RaisesOnly (fun e => NotOfRefs (some (.codegen e))) (build_wiring_map g) := by
  refine .bind (.mapM fun p _ => ?_) fun _ _ => .ok
  rw [Graph.bind_port]
  split
  · exact .error rfl
  · exact .ok

/-- The guards are about structure, not about references. -/
theorem prepare_not_of_refs {registry : NodeRegistry} {g : Graph Sub}
    {bound : String → String → Bool} :
    RaisesOnly (fun e => NotOfRefs (some (.codegen e))) (g.prepare registry bound) := by
  refine .bind ?_ fun _ _ => .bind ?_ fun order _ =>
    .bind build_wiring_map_not_of_refs fun w _ => .bind ?_ fun _ _ => .ok
  · exact .bind (.guard rfl) fun _ _ => .forM fun _ _ => .guard rfl
  · rw [topological_sort]
    split
    · exact .ok
    · exact .error rfl
  · refine .forM fun id _ => ?_
    split
    · exact .ok
    · exact .forM fun _ _ => .guard rfl

theorem emit_not_of_refs {a : Assembler Sub F ε} {g : Graph Sub} {names : Dict String String}
    (hrefs : ∀ id node, g.nodes.get? id = some node →
      ∀ param ∈ node.params, ∀ ref, param.ref = some ref → ref ∈ names.keys)
    (hcomposite : ∀ id node, g.nodes.get? id = some node → ∀ ctx,
      RaisesOnly (fun c => NotOfRefs c.structural) (a.composite node ctx names))
    {w : WiringMap} {overrides : Dict (String × String) String} {id : String} :
    RaisesOnly (fun c => NotOfRefs c.structural) (a.emit g w overrides names id) := by
  refine .bind (.require rfl) fun node hnode => .bind (.mapError fun _ _ => rfl) fun ctx _ => ?_
  rw [require_eq_ok] at hnode
  obtain ⟨refs, hnames⟩ := param_expr_refs_of_mem (hrefs id node hnode)
  rw [hnames]
  refine .bind .ok fun refs' _ => ?_
  rw [Assembler.fragment]
  split
  · exact hcomposite id node hnode _
  · exact .bind (.require rfl) fun _ _ => .mapError fun _ _ => rfl

theorem assemble_not_of_refs_level {a : Assembler Sub F ε} {g : Graph Sub}
    {names : Dict String String}
    (hrefs : ∀ id node, g.nodes.get? id = some node →
      ∀ param ∈ node.params, ∀ ref, param.ref = some ref → ref ∈ names.keys)
    (hcomposite : ∀ id node, g.nodes.get? id = some node → ∀ ctx,
      RaisesOnly (fun c => NotOfRefs c.structural) (a.composite node ctx names))
    {overrides : Dict (String × String) String} :
    RaisesOnly (fun c => NotOfRefs c.structural) (a.assemble g overrides names) := by
  refine .bind (.mapError prepare_not_of_refs) fun p _ => ?_
  refine .bind (.foldlM (fun _ _ _ => ?_) []) fun _ _ => .bind (.mapM fun _ _ => ?_) fun _ _ => .ok
  · exact .bind (emit_not_of_refs hrefs hcomposite) fun _ _ => .ok
  · exact .bind (.require rfl) fun _ _ => .ok

theorem codegen_composite_not_of_refs {assemble : Graph Sub → Dict (String × String) String →
      Dict String String → Except (AssemblyFailure ε) (AssembledModule F)}
    {nest : Node (Graph Sub) → CodegenContext → CompositeBoundary → AssembledModule F → Except ε F}
    {node : Node (Graph Sub)} {ctx : CodegenContext} {names : Dict String String}
    (hinner : ∀ sub, node.subgraph = some sub → ∀ overrides,
      RaisesOnly (fun c => NotOfRefs c.structural) (assemble sub overrides names)) :
    RaisesOnly (fun c => NotOfRefs c.structural)
      (codegen_composite assemble nest node ctx names) := by
  refine .bind (.require rfl) fun sub hsub => ?_
  refine .bind (.mapError (.bind build_wiring_map_not_of_refs fun _ _ => .ok)) fun _ _ => ?_
  refine .bind (.guard rfl) fun _ _ => .bind (.guard rfl) fun _ _ => ?_
  refine .bind (.mapError fun _ _ => rfl) fun overrides _ => ?_
  exact .bind (hinner sub (require_eq_ok.mp hsub) overrides) fun _ _ => .mapError fun _ _ => rfl

/-- Where every reference resolves, the compiler does not complain of one. -/
theorem assemble_not_of_refs {registry : NodeRegistry} {em : Emission F ε}
    {names : Dict String String} {n : Nat} {g : Graph (Nested n)}
    (hrefs : RefsResolved names.keys n g) {overrides : Dict (String × String) String} :
    RaisesOnly (fun c => NotOfRefs c.structural)
      ((nested_assembler registry em n).assemble g overrides names) := by
  induction n generalizing overrides with
  | zero =>
      refine assemble_not_of_refs_level (fun id node h => (hrefs id node h).1) ?_
      intro _ _ _ _ c hc
      cases hc
      rfl
  | succ n ih =>
      refine assemble_not_of_refs_level (fun id node h => (hrefs id node h).1) fun id node h ctx => ?_
      refine codegen_composite_not_of_refs fun sub hsub overrides => ?_
      have hsubrefs : RefsResolved names.keys n sub := (hrefs id node h).2 sub hsub
      exact ih hsubrefs

theorem execute_functional_not_of_refs {x : Executor Sub V C ε} {g : Graph Sub}
    (hcomposite : ∀ node inputs, RaisesOnly (fun c => NotOfRefs c.structural)
      (x.composite node inputs)) {seeds : Dict (String × String) V} :
    RaisesOnly (fun c => NotOfRefs c.structural) (x.execute_functional g seeds) := by
  refine .bind (.mapError prepare_not_of_refs) fun (order, w) _ => ?_
  refine .foldlM (fun results id _ => .bind (.mapError ?_) fun _ _ => .ok) Dict.empty
  refine .bind (.require rfl) fun node _ => .bind (.mapError fun _ _ => rfl) fun inputs _ => ?_
  rw [Executor.run_node]
  split
  · exact hcomposite node inputs
  · refine .bind (.require rfl) fun d _ c hc => ?_
    rw [ExecutionError.structural, ExecutionError.cause, dispatch_own c hc]
    rfl

/-- Running a graph without references never complains of one. -/
theorem execute_not_of_refs {rt : Runtime V} {call : ∀ n, Behaviour (Nested n) V C ε}
    {clients : Clients C} {n : Nat} {g : Graph (Nested n)} {seeds : Dict (String × String) V} :
    RaisesOnly (fun c => NotOfRefs c.structural)
      ((nested_executor rt call clients n).execute_functional g seeds) := by
  induction n generalizing seeds with
  | zero =>
      refine execute_functional_not_of_refs ?_
      intro _ _ c hc
      cases hc
      rfl
  | succ n ih =>
      refine execute_functional_not_of_refs fun node inputs => ?_
      refine .bind (.require rfl) fun sub hsub => ?_
      refine .bind (.mapError (.bind build_wiring_map_not_of_refs fun _ _ => .ok)) fun _ _ => ?_
      refine .bind (.guard rfl) fun _ _ => .bind (.guard rfl) fun _ _ => ?_
      refine .bind (.mapError fun _ _ => rfl) fun seeds _ => ?_
      exact .bind (.mapError ih) fun _ _ => .mapError fun _ _ => rfl

end EmergentFlow
