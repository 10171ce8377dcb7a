import EmergentFlow.Codegen.Assemble
import EmergentFlow.Codegen.Materialize
import EmergentFlow.Codegen.WiringLaw
import EmergentFlow.Lib.Agreement

/-!
# Codegen — Gate

What a graph that passes the validation gate is spared: at the top level
its ports are wired within their cardinality, it has no cycle, every
required IN port has a source, and at every depth each reference names a
param of the graph. Nothing else is promised: the gate says nothing about
a node whose type is not registered, the paradigm of a node, or the
wiring inside a composite.
-/

namespace EmergentFlow

variable {n : Nat}

/-! ## What the gate finds -/

/-- What the gate leaves nothing to find of. -/
structure PassesGate (registry : NodeRegistry) (n : Nat) (g : Graph (Nested n)) : Prop where
  cardinality : ∀ node ∈ g.sorted_nodes, ∀ port ∈ node.in_ports,
    port.cardinality = .ONE → (g.incoming ⟨node.id, port.id⟩).length ≤ 1
  bound : ∀ node ∈ g.sorted_nodes, ∀ port ∈ node.in_ports,
    port.name ∈ required_in_port_names registry node.type → g.incoming ⟨node.id, port.id⟩ ≠ []
  order : ∃ order, topological_sort g = .ok order
  refs : RefsResolved g.params.keys n g

variable {v : Validator} {g : Graph (Nested n)}

/-- A gate that is passed has found no error. -/
theorem Validator.errors_of_passes (h : v.passes n g = true) :
    ∃ types, v.type_diagnostics n g = .ok types ∧ ∀ d ∈ v.structural_diagnostics g ++
      v.param_diagnostics g ++ v.ref_diagnostics g.params n g, d.severity ≠ .ERROR := by
  have hok : ∃ ds, v.enforce_validation_gate n g = .ok ds := by
    rw [Validator.passes] at h
    cases hgate : v.enforce_validation_gate n g with
    | ok ds => exact ⟨ds, rfl⟩
    | error e =>
        rw [hgate] at h
        cases h
  obtain ⟨ds, hds⟩ := hok
  obtain ⟨ds', hvalidate, hguard⟩ := Checks.bind_eq_ok.mp hds
  obtain ⟨⟨⟩, hempty, -⟩ := Checks.bind_eq_ok.mp hguard
  rw [Checks.guard_eq_ok, List.isEmpty_iff] at hempty
  obtain ⟨types, htypes, hrest⟩ := Checks.bind_eq_ok.mp hvalidate
  obtain ⟨findings, -, hpure⟩ := Checks.bind_eq_ok.mp hrest
  refine ⟨types, htypes, fun d hd herror => ?_⟩
  cases hpure
  have hmem : { d with source := some "validator" } ∈ ([] : List Diagnostic) := by
    rw [← hempty]
    refine List.mem_filter.mpr ⟨List.mem_map.mpr ⟨d, ?_, rfl⟩, by simpa using herror⟩
    exact List.mem_append_left _ (List.mem_append_left _ hd)
  cases hmem

/-- Every structural finding is an error. -/
theorem Validator.severity_of_mem_port {Sub : Type} {g : Graph Sub} {node : Node Sub} {port : Port}
    {d : Diagnostic} (h : d ∈ v.port_diagnostics g node port) : d.severity = .ERROR := by
  simp only [Validator.port_diagnostics, List.mem_append] at h
  rcases h with h | h
  · split at h
    · cases h
    · rw [List.mem_singleton.mp h]
  · split at h
    · rw [List.mem_singleton.mp h]
    · cases h

/-- Every finding about a reference is an error. -/
theorem Validator.severity_of_ref {Sub : Type} {top : Dict String Param} {node : Node Sub}
    {param : Param} {d : Diagnostic} (h : v.ref_diagnostic top node param = some d) :
    d.severity = .ERROR := by
  obtain ⟨ref, -, h⟩ := Option.bind_eq_some_iff.mp h
  split at h
  · cases h
    rfl
  · split at h
    · cases h
      rfl
    · split at h
      · cases h
        rfl
      · split at h
        · cases h
        · cases h
          rfl

/-- A reference without a finding names a param of the outermost graph. -/
theorem Validator.mem_of_ref {Sub : Type} {top : Dict String Param} {node : Node Sub}
    {param : Param} (h : v.ref_diagnostic top node param = none) {ref : String}
    (href : param.ref = some ref) : ref ∈ top.keys := by
  rw [Validator.ref_diagnostic, href, Option.bind_some] at h
  cases hget : top.get? ref with
  | none => simp [hget] at h
  | some graph_param => exact (Dict.mem_keys_iff _).mpr ⟨graph_param, hget⟩

/-- One level of the references: no finding, so all of them resolve. -/
theorem Validator.refs_of_level {Sub : Type} {inside : Sub → List Diagnostic}
    {P : Sub → Prop} {top : Dict String Param} {g : Graph Sub}
    (h : ∀ d ∈ v.ref_diagnostics_with inside top g, d.severity ≠ .ERROR)
    (hsub : ∀ sub, (∀ d ∈ inside sub, d.severity ≠ .ERROR) → P sub) :
    g.refs_resolved_with P top.keys := by
  intro id node hnode
  have hmem := Graph.mem_sorted_nodes.mpr ⟨id, hnode⟩
  constructor
  · intro param hparam ref href
    cases hd : v.ref_diagnostic top node param with
    | none => exact v.mem_of_ref hd href
    | some d =>
        refine absurd (v.severity_of_ref hd) (h d ?_)
        refine List.mem_flatMap.mpr ⟨node, hmem, List.mem_append_right _ ?_⟩
        exact List.mem_filterMap.mpr ⟨param, hparam, hd⟩
  · intro sub hs
    refine hsub sub fun d hd => h d ?_
    refine List.mem_flatMap.mpr ⟨node, hmem, List.mem_append_left _ ?_⟩
    rw [hs]
    exact hd

theorem Validator.refs_of_findings {top : Dict String Param}
    (h : ∀ d ∈ v.ref_diagnostics top n g, d.severity ≠ .ERROR) : RefsResolved top.keys n g := by
  induction n with
  | zero => exact v.refs_of_level h fun _ _ => trivial
  | succ n ih => exact v.refs_of_level h fun sub hsub => ih hsub

/-- The gate is sound for the guards on the outermost graph and for the
references at every depth. -/
theorem Validator.gated (h : v.passes n g = true) : PassesGate v.registry n g := by
  obtain ⟨types, htypes, hnone⟩ := Validator.errors_of_passes h
  -- a port that has a finding would be an error among the diagnostics
  have hport : ∀ node ∈ g.sorted_nodes, ∀ port ∈ node.in_ports,
      v.port_diagnostics g node port = [] := by
    intro node hnode port hp
    refine List.eq_nil_iff_forall_not_mem.mpr fun d hd => ?_
    refine hnone d (List.mem_append_left _ (List.mem_append_left _ ?_)) (v.severity_of_mem_port hd)
    exact List.mem_flatMap.mpr ⟨node, hnode, List.mem_flatMap.mpr ⟨port, hp, hd⟩⟩
  have hcard : ∀ node ∈ g.sorted_nodes, ∀ port ∈ node.in_ports,
      port.cardinality = .ONE → (g.incoming ⟨node.id, port.id⟩).length ≤ 1 := by
    intro node hnode port hp
    refine check_cardinality_ok.mp (?_ : (check_cardinality _ _ port.name).ok = true)
    by_contra hnot
    have hnil := (List.append_eq_nil_iff.mp (hport node hnode port hp)).1
    rw [if_neg hnot] at hnil
    cases hnil
  refine ⟨hcard, ?_, ?_, v.refs_of_findings fun d hd => hnone d (List.mem_append_right _ hd)⟩
  · intro node hnode port hp hrequired hempty
    have hnil := (List.append_eq_nil_iff.mp (hport node hnode port hp)).2
    rw [if_pos ⟨by rw [hempty]; rfl, hrequired⟩] at hnil
    cases hnil
  · -- the wiring can be built, so the inference got as far as the order
    obtain ⟨w, hw⟩ := build_wiring_map_of_cardinality hcard
    cases horder : topological_sort g with
    | ok order => exact ⟨order, rfl⟩
    | error e =>
        have hinfer : v.infer_graph_types n g = .error e := by
          rw [Validator.infer_graph_types, hw]
          exact Checks.bind_eq_error.mpr (.inr ⟨w, rfl, Checks.bind_eq_error.mpr (.inl horder)⟩)
        have hcycle : ∃ remaining, e = .cycle remaining := by
          rw [topological_sort] at horder
          split at horder
          · cases horder
          · cases horder
            exact ⟨_, rfl⟩
        obtain ⟨remaining, rfl⟩ := hcycle
        rw [Validator.type_diagnostics, hinfer] at htypes
        cases htypes

/-! ## The guards of a walk -/

/-- The guards both walks make before the first node. -/
def Graph.prepare {Sub : Type} (registry : NodeRegistry) (g : Graph Sub)
    (bound : String → String → Bool) : Except CodegenError (List String × WiringMap) := do
  g.check_paradigms
  let order ← topological_sort g
  let w ← build_wiring_map g
  g.check_bound_inputs registry w bound order
  pure (order, w)

theorem Graph.check_paradigms_eq_error {Sub : Type} {g : Graph Sub}
    (hfunctional : g.paradigm = .FUNCTIONAL) {e : CodegenError}
    (h : g.check_paradigms = .error e) : ∃ id node, g.nodes.get? id = some node ∧
      node.paradigm ≠ .FUNCTIONAL ∧ e = .node_paradigm node.id := by
  rw [Graph.check_paradigms, hfunctional] at h
  have hloop : (g.nodes.values.forM fun node => Checks.guard (node.paradigm = .FUNCTIONAL)
      (CodegenError.node_paradigm node.id)) = .error e := h
  obtain ⟨node, hmem, hnode⟩ := Checks.forM_eq_error hloop
  obtain ⟨id, hid⟩ := (Dict.mem_values_iff _).mp hmem
  rw [Checks.guard] at hnode
  split at hnode
  · cases hnode
  · rename_i hparadigm
    cases hnode
    exact ⟨id, node, hid, by simpa using hparadigm, rfl⟩

/-- Of the guards on a gated graph, only the one on the paradigm of its
nodes is left. -/
theorem PassesGate.prepare_eq_error {registry : NodeRegistry} (hgated : PassesGate registry n g)
    (hfunctional : g.paradigm = .FUNCTIONAL) {bound : String → String → Bool} {e : CodegenError}
    (h : g.prepare registry bound = .error e) : ∃ id node, g.nodes.get? id = some node ∧
      node.paradigm ≠ .FUNCTIONAL ∧ e = .node_paradigm node.id := by
  obtain ⟨order, horder⟩ := hgated.order
  obtain ⟨w, hw⟩ := build_wiring_map_of_cardinality hgated.cardinality
  have hbound : g.check_bound_inputs registry w bound order = .ok () := by
    refine Checks.forM_eq_ok.mpr fun id _ => ?_
    cases hget : g.nodes.get? id with
    | none => rfl
    | some node =>
        refine Checks.forM_eq_ok.mpr fun port hport => ?_
        obtain ⟨hup, -⟩ := build_wiring_map_eq_ok hw hget hport
        rw [check_bound, Checks.guard_eq_ok, hup]
        by_cases hrequired : port.name ∈ required_in_port_names registry node.type
        · have hne := hgated.bound node (Graph.mem_sorted_nodes.mpr ⟨id, hget⟩) port hport hrequired
          have hsources : g.sources ⟨node.id, port.id⟩ ≠ [] := by
            rwa [ne_eq, ← List.length_eq_zero_iff, Graph.length_sources, List.length_eq_zero_iff]
          simp [hsources]
        · simp [hrequired]
  rw [Graph.prepare, horder, hw] at h
  rcases Checks.bind_eq_error.mp h with hparadigm | ⟨⟨⟩, -, hrest⟩
  · exact Graph.check_paradigms_eq_error hfunctional hparadigm
  · have hdone : (g.check_bound_inputs registry w bound order >>= fun _ =>
        (pure (order, w) : Except CodegenError _)) = .error e := hrest
    rw [hbound] at hdone
    cases hdone

end EmergentFlow
