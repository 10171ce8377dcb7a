import EmergentFlow.Codegen.Executor

/-!
# Codegen — Materialize

What materializing a graph does to the walks over it. When every reference
resolves, it is a map over the nodes (`bake`) that keeps the frame of each:
its id, type, paradigm and ports. The paradigm guard, the visiting order,
the wiring and the boundary of a composite read nothing else, so they are
those of the graph as given.
-/

namespace EmergentFlow

variable {Sub Sub' : Type}

/-! ## Maps over the nodes -/

/-- A map over the nodes of a graph. -/
def Graph.map_nodes (f : Node Sub → Node Sub') (g : Graph Sub) : Graph Sub' where
  schema_version := g.schema_version
  paradigm := g.paradigm
  name := g.name
  nodes := g.nodes.mapValues fun _ => f
  edges := g.edges
  params := g.params

/-- The map keeps what wiring and order are made from. -/
structure KeepsFrame (f : Node Sub → Node Sub') : Prop where
  id : ∀ node, (f node).id = node.id
  type : ∀ node, (f node).type = node.type
  paradigm : ∀ node, (f node).paradigm = node.paradigm
  ports : ∀ node, (f node).ports = node.ports

section Frame

variable {f : Node Sub → Node Sub'} (hf : KeepsFrame f) (g : Graph Sub)

theorem Graph.get?_map_nodes (f : Node Sub → Node Sub') (g : Graph Sub) (id : String) :
    (g.map_nodes f).nodes.get? id = (g.nodes.get? id).map f := Dict.get?_mapValues _ _ _

theorem Graph.values_map_nodes (f : Node Sub → Node Sub') (g : Graph Sub) :
    (g.map_nodes f).nodes.values = g.nodes.values.map f := by
  simp [Graph.map_nodes, Dict.values, Dict.mapValues, List.map_map, Function.comp_def]

include hf

theorem KeepsFrame.in_ports (node : Node Sub) : (f node).in_ports = node.in_ports := by
  rw [Node.in_ports, Node.in_ports, hf.ports]

theorem KeepsFrame.out_ports (node : Node Sub) : (f node).out_ports = node.out_ports := by
  rw [Node.out_ports, Node.out_ports, hf.ports]

theorem Graph.sorted_nodes_map_nodes :
    (g.map_nodes f).sorted_nodes = g.sorted_nodes.map f := by
  rw [Graph.sorted_nodes, Graph.sorted_nodes, Graph.values_map_nodes]
  exact (List.map_insertionSort _ _ f _ fun a _ b _ => by rw [hf.id, hf.id]).symm

theorem Graph.check_paradigms_map_nodes :
    (g.map_nodes f).check_paradigms = g.check_paradigms := by
  rw [Graph.check_paradigms, Graph.check_paradigms, Graph.values_map_nodes]
  refine congrArg (Bind.bind _) (funext fun _ => ?_)
  simp only [List.forM_eq_forM, List.forM_map, hf.id, hf.paradigm]

omit hf in
theorem topological_sort_map_nodes (f : Node Sub → Node Sub') :
    topological_sort (g.map_nodes f) = topological_sort g := by
  have hkeys : (g.map_nodes f).nodes.keys = g.nodes.keys := Dict.keys_mapValues _ _
  have hlinks : (g.map_nodes f).links = g.links := rfl
  rw [topological_sort, topological_sort, hkeys, hlinks]

theorem build_wiring_map_map_nodes : build_wiring_map (g.map_nodes f) = build_wiring_map g := by
  have hports : ∀ p : Node Sub × Port,
      (g.map_nodes f).bind_port (f p.1) p.2 = g.bind_port p.1 p.2 := by
    intro p
    rw [Graph.bind_port, Graph.bind_port, hf.id]
    rfl
  have hpairs : ((g.map_nodes f).sorted_nodes.flatMap fun node => node.in_ports.map (node, ·)) =
      (g.sorted_nodes.flatMap fun node => node.in_ports.map (node, ·)).map
        fun p => (f p.1, p.2) := by
    rw [Graph.sorted_nodes_map_nodes hf, List.flatMap_map, List.map_flatMap]
    simp only [hf.in_ports, List.map_map, Function.comp_def]
  rw [build_wiring_map, build_wiring_map, hpairs, List.mapM_map]
  simp only [Function.comp_def, hports]

theorem Graph.sorted_ports_map_nodes : (g.map_nodes f).sorted_ports = g.sorted_ports := by
  rw [Graph.sorted_ports, Graph.sorted_ports, Graph.sorted_nodes_map_nodes hf, List.flatMap_map]
  simp only [hf.id, hf.ports]

theorem resolve_composite_boundary_map_nodes :
    resolve_composite_boundary (g.map_nodes f) = resolve_composite_boundary g := by
  rw [resolve_composite_boundary, resolve_composite_boundary, build_wiring_map_map_nodes hf,
    Graph.sorted_ports_map_nodes hf]

theorem check_bound_frame {reg : NodeRegistry} {w : WiringMap} {seeded : String → String → Bool}
    (node : Node Sub) : check_bound reg w seeded (f node) = check_bound reg w seeded node := by
  funext port
  rw [check_bound, check_bound, hf.id, hf.type]

theorem Graph.check_bound_inputs_map_nodes {reg : NodeRegistry} {w : WiringMap}
    {seeded : String → String → Bool} {order : List String} :
    (g.map_nodes f).check_bound_inputs reg w seeded order =
      g.check_bound_inputs reg w seeded order := by
  rw [Graph.check_bound_inputs, Graph.check_bound_inputs]
  refine congrArg (List.forM order) (funext fun id => ?_)
  rw [Graph.get?_map_nodes]
  cases g.nodes.get? id with
  | none => rfl
  | some node => simp only [Option.map_some, hf.in_ports, check_bound_frame hf]

theorem Graph.source_port_name_map_nodes (src : PortRef) :
    (g.map_nodes f).source_port_name src = g.source_port_name src := by
  rw [Graph.source_port_name, Graph.source_port_name, Graph.get?_map_nodes]
  cases g.nodes.get? src.node_id with
  | none => rfl
  | some node =>
      simp only [Option.map_some, Checks.require_some, Node.port_name, hf.ports, bind, Except.bind]

end Frame

/-! ## References that resolve -/

section Level

variable (inside : Sub → Prop) (names : List String)

/-- The references of a graph name one of `names`, at every depth. -/
def Graph.refs_resolved_with (g : Graph Sub) : Prop :=
  ∀ id node, g.nodes.get? id = some node →
    (∀ param ∈ node.params, ∀ ref, param.ref = some ref → ref ∈ names) ∧
      ∀ sub, node.subgraph = some sub → inside sub

end Level

/-- The references of a nested graph name one of `names`. -/
def RefsResolved (names : List String) : (n : Nat) → Graph (Nested n) → Prop
  | 0 => Graph.refs_resolved_with (fun _ => True) names
  | n + 1 => Graph.refs_resolved_with (RefsResolved names n) names

/-! ## Baking -/

/-- `param.value = resolved[param.ref]`. -/
def Param.bake (resolved : Dict String ParamValue) (p : Param) : Param :=
  match p.ref.bind resolved.get? with
  | none => p
  | some value => { p with value }

/-- A node with the values of its references baked in. -/
def Node.bake_with (bake_sub : Sub → Sub) (resolved : Dict String ParamValue)
    (node : Node Sub) : Node Sub :=
  { node with subgraph := node.subgraph.map bake_sub, params := node.params.map (·.bake resolved) }

/-- A nested graph with the values of all references baked in. -/
def bake (resolved : Dict String ParamValue) : (n : Nat) → Graph (Nested n) → Graph (Nested n)
  | 0 => Graph.map_nodes (Node.bake_with id resolved)
  | n + 1 => Graph.map_nodes (Node.bake_with (bake resolved n) resolved)

theorem keepsFrame_bake (bake_sub : Sub → Sub) (resolved : Dict String ParamValue) :
    KeepsFrame (Node.bake_with bake_sub resolved) := by
  constructor <;> intro node <;> rfl

theorem Param.resolve_of_mem {resolved : Dict String ParamValue} {node_id : String} {p : Param}
    (h : ∀ ref, p.ref = some ref → ref ∈ resolved.keys) :
    p.resolve resolved node_id = .ok (p.bake resolved) := by
  rw [Param.resolve, Param.bake]
  cases href : p.ref with
  | none => rfl
  | some ref =>
      obtain ⟨value, hvalue⟩ := (Dict.mem_keys_iff _).mp (h ref href)
      simp only [Option.bind_some, hvalue, Checks.require_some, bind, Except.bind, pure,
        Except.pure]

/-- Resolving the nodes of a graph is baking, when each node can be. -/
theorem Graph.resolve_nodes_with_of_ok {sub_resolve : Dict String ParamValue → Sub →
      Except CodegenError Sub} {resolved : Dict String ParamValue} {bake_sub : Sub → Sub}
    {g : Graph Sub} (h : ∀ id node, g.nodes.get? id = some node →
      node.resolve_params_with sub_resolve resolved = .ok (node.bake_with bake_sub resolved)) :
    g.resolve_nodes_with sub_resolve resolved =
      .ok (g.map_nodes (Node.bake_with bake_sub resolved)) := by
  have hnodes : ∀ e ∈ g.nodes.entries,
      e.2.resolve_params_with sub_resolve resolved = .ok (e.2.bake_with bake_sub resolved) :=
    fun e he => h e.1 e.2 ((Dict.mem_entries_iff _).mp he)
  obtain ⟨nodes, hloop, hentries⟩ :=
    Checks.foldlM_set_eq_ok hnodes (d := Dict.empty) g.nodes.nodup (by simp [Dict.keys, Dict.empty])
  have heq : nodes = g.nodes.mapValues fun _ => Node.bake_with bake_sub resolved :=
    Dict.ext_entries (by rw [hentries]; rfl)
  rw [Graph.resolve_nodes_with, hloop, heq]
  rfl

theorem Node.resolve_params_with_of_resolved {sub_resolve : Dict String ParamValue → Sub →
      Except CodegenError Sub} {resolved : Dict String ParamValue} {bake_sub : Sub → Sub}
    {node : Node Sub}
    (hparams : ∀ param ∈ node.params, ∀ ref, param.ref = some ref → ref ∈ resolved.keys)
    (hsub : ∀ sub, node.subgraph = some sub → sub_resolve resolved sub = .ok (bake_sub sub)) :
    node.resolve_params_with sub_resolve resolved = .ok (node.bake_with bake_sub resolved) := by
  have hresolved : node.params.mapM (Param.resolve resolved node.id) =
      .ok (node.params.map (·.bake resolved)) :=
    Checks.mapM_eq_map fun p hp => Param.resolve_of_mem (hparams p hp)
  rw [Node.resolve_params_with, hresolved, Node.bake_with]
  cases hnode : node.subgraph with
  | none => rfl
  | some sub =>
      rw [Option.mapM_some, hsub sub hnode]
      rfl

/-- Where every reference resolves, resolving is baking. -/
theorem resolve_nodes_of_resolved {resolved : Dict String ParamValue} {n : Nat}
    {g : Graph (Nested n)} (h : RefsResolved resolved.keys n g) :
    resolve_nodes n resolved g = .ok (bake resolved n g) := by
  induction n with
  | zero =>
      refine Graph.resolve_nodes_with_of_ok fun id node hnode => ?_
      exact Node.resolve_params_with_of_resolved (h id node hnode).1 fun sub => Empty.elim sub
  | succ n ih =>
      refine Graph.resolve_nodes_with_of_ok fun id node hnode => ?_
      exact Node.resolve_params_with_of_resolved (h id node hnode).1
        fun sub hsub => ih ((h id node hnode).2 sub hsub)

/-! ## Graphs without references -/

theorem Node.bake_with_eq_self {bake_sub : Sub → Sub} {resolved : Dict String ParamValue}
    {node : Node Sub} (hparams : ∀ param ∈ node.params, param.ref = none)
    (hsub : ∀ sub, node.subgraph = some sub → bake_sub sub = sub) :
    node.bake_with bake_sub resolved = node := by
  have hmap : node.params.map (·.bake resolved) = node.params := by
    refine (List.map_congr_left fun p hp => ?_).trans (List.map_id _)
    rw [Param.bake, hparams p hp]
    rfl
  have hsubgraph : node.subgraph.map bake_sub = node.subgraph := by
    cases hnode : node.subgraph with
    | none => rfl
    | some sub => rw [Option.map_some, hsub sub hnode]
  rw [Node.bake_with, hmap, hsubgraph]

theorem Graph.map_nodes_eq_self {f : Node Sub → Node Sub} {g : Graph Sub}
    (h : ∀ id node, g.nodes.get? id = some node → f node = node) : g.map_nodes f = g := by
  have hnodes : g.nodes.mapValues (fun _ => f) = g.nodes := by
    refine Dict.ext_entries ?_
    refine (List.map_congr_left fun e he => ?_).trans (List.map_id _)
    exact Prod.ext rfl (h e.1 e.2 ((Dict.mem_entries_iff _).mp he))
  rw [Graph.map_nodes, hnodes]

theorem Graph.has_refs_with_eq_false {sub_has_refs : Sub → Bool} {g : Graph Sub}
    (h : g.has_refs_with sub_has_refs = false) {id : String} {node : Node Sub}
    (hnode : g.nodes.get? id = some node) :
    (∀ param ∈ node.params, param.ref = none) ∧
      ∀ sub, node.subgraph = some sub → sub_has_refs sub = false := by
  have hmem := (Dict.mem_values_iff _).mpr ⟨id, hnode⟩
  have hfalse := List.any_eq_false.mp h node hmem
  simp only [Bool.or_eq_true, not_or, List.any_eq_true, not_exists, not_and,
    Option.isSome_iff_ne_none, not_not, Bool.not_eq_true] at hfalse
  refine ⟨fun param hp => hfalse.1 param hp, fun sub hsub => ?_⟩
  rw [hsub] at hfalse
  exact hfalse.2

theorem bake_of_no_refs {resolved : Dict String ParamValue} {n : Nat} {g : Graph (Nested n)}
    (h : has_graph_param_refs n g = false) : bake resolved n g = g := by
  induction n with
  | zero =>
      refine Graph.map_nodes_eq_self fun id node hnode => ?_
      exact Node.bake_with_eq_self (Graph.has_refs_with_eq_false h hnode).1 fun _ _ => rfl
  | succ n ih =>
      refine Graph.map_nodes_eq_self fun id node hnode => ?_
      obtain ⟨hparams, hsub⟩ := Graph.has_refs_with_eq_false h hnode
      exact Node.bake_with_eq_self hparams fun sub hs => ih (hsub sub hs)

/-- The stored values of the params of a graph. -/
def Graph.stored_params (g : Graph Sub) : Dict String ParamValue :=
  g.params.mapValues fun _ param => param.value

theorem Graph.keys_stored_params (g : Graph Sub) : g.stored_params.keys = g.params.keys :=
  Dict.keys_mapValues _ _

/-- Without overrides, a graph whose references resolve is run with the
stored values baked in. -/
theorem materialize_of_resolved {n : Nat} {g : Graph (Nested n)}
    (h : RefsResolved g.params.keys n g) :
    materialize_if_needed n g none = .ok (bake g.stored_params n g) := by
  rw [materialize_if_needed]
  split
  · have hstored : resolve_graph_params g none = .ok g.stored_params := rfl
    rw [materialize_graph, hstored]
    exact resolve_nodes_of_resolved (g.keys_stored_params ▸ h)
  · rename_i hrefs
    simp only [Option.isSome_none, Bool.false_or, Bool.not_eq_true] at hrefs
    rw [bake_of_no_refs hrefs]

end EmergentFlow
