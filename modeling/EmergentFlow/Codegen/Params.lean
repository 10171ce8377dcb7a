import EmergentFlow.Codegen.Wiring

/-!
# Codegen — Params

Graph-level params (`codegen/params.py`): a node param may refer to a
param of the graph, and materializing the graph bakes the resolved values
into the node params, through all composites.
-/

namespace EmergentFlow

variable {Sub : Type}

/-- `resolve_graph_params`: overrides over stored values; an override that
names no param of the graph is an error. -/
def resolve_graph_params (g : Graph Sub) (overrides : Option (Dict String ParamValue)) :
    Except CodegenError (Dict String ParamValue) :=
  let overrides := overrides.getD Dict.empty
  let unknown := overrides.keys.filter (· ∉ g.params.keys)
  if unknown = [] then
    .ok (g.params.mapValues fun name param => (overrides.get? name).getD param.value)
  else
    .error (.unknown_overrides (unknown.insertionSort (· ≤ ·)))

/-- One param of a node with its reference resolved. -/
def Param.resolve (resolved : Dict String ParamValue) (node_id : String) (p : Param) :
    Except CodegenError Param :=
  match p.ref with
  | none => .ok p
  | some ref => do
      let value ← Checks.require (resolved.get? ref) (.undefined_ref node_id p.name ref)
      pure { p with value }

section Level

variable (sub_has_refs : Sub → Bool)
  (sub_resolve : Dict String ParamValue → Sub → Except CodegenError Sub)

/-- Some node carries a reference, or owns a subgraph where one does. -/
def Graph.has_refs_with (g : Graph Sub) : Bool :=
  g.nodes.values.any fun node => node.params.any (·.ref.isSome) || node.subgraph.any sub_has_refs

/-- `_resolve_node_params`. -/
def Node.resolve_params_with (resolved : Dict String ParamValue) (node : Node Sub) :
    Except CodegenError (Node Sub) := do
  let subgraph ← node.subgraph.mapM (sub_resolve resolved)
  let params ← node.params.mapM (Param.resolve resolved node.id)
  pure { node with subgraph, params }

/-- The nodes of a graph with their references resolved, in place. -/
def Graph.resolve_nodes_with (resolved : Dict String ParamValue) (g : Graph Sub) :
    Except CodegenError (Graph Sub) := do
  let nodes ← g.nodes.entries.foldlM (fun nodes e => do
    let node ← e.2.resolve_params_with sub_resolve resolved
    pure (nodes.set e.1 node)) Dict.empty
  pure { g with nodes }

end Level

/-- `has_graph_param_refs`. -/
def has_graph_param_refs : (n : Nat) → Graph (Nested n) → Bool
  | 0 => Graph.has_refs_with Empty.elim
  | n + 1 => Graph.has_refs_with (has_graph_param_refs n)

/-- The nodes of a nested graph with their references resolved. -/
def resolve_nodes : (n : Nat) → Dict String ParamValue → Graph (Nested n) →
    Except CodegenError (Graph (Nested n))
  | 0 => Graph.resolve_nodes_with fun _ sub => sub.elim
  | n + 1 => Graph.resolve_nodes_with (resolve_nodes n)

/-- `materialize_graph`. -/
def materialize_graph (n : Nat) (g : Graph (Nested n))
    (overrides : Option (Dict String ParamValue)) : Except CodegenError (Graph (Nested n)) := do
  let resolved ← resolve_graph_params g overrides
  resolve_nodes n resolved g

/-- The graph a run reads: materialized when there is anything to resolve. -/
def materialize_if_needed (n : Nat) (g : Graph (Nested n))
    (overrides : Option (Dict String ParamValue)) : Except CodegenError (Graph (Nested n)) :=
  if overrides.isSome || has_graph_param_refs n g then materialize_graph n g overrides else .ok g

/-! ## Materializing keeps the structure -/

section Structure

variable {sub_resolve : Dict String ParamValue → Sub → Except CodegenError Sub}
  {resolved : Dict String ParamValue}

/-- Only the params and the subgraph of a node change. -/
theorem Node.resolve_params_with_eq_ok {node node' : Node Sub}
    (h : node.resolve_params_with sub_resolve resolved = .ok node') :
    node' = { node with subgraph := node'.subgraph, params := node'.params } := by
  obtain ⟨subgraph, -, h⟩ := Checks.bind_eq_ok.mp h
  obtain ⟨params, -, h⟩ := Checks.bind_eq_ok.mp h
  cases h
  rfl

/-- The loop over the nodes resolves each in its place. -/
theorem resolve_loop {l : List (String × Node Sub)} {nodes nodes' : Dict String (Node Sub)}
    (hnodup : (l.map Prod.fst).Nodup)
    (h : l.foldlM (fun nodes e => do
      let node ← e.2.resolve_params_with sub_resolve resolved
      pure (nodes.set e.1 node)) nodes = .ok nodes') (id : String) :
    (id ∉ l.map Prod.fst → nodes'.get? id = nodes.get? id) ∧
      ∀ node, (id, node) ∈ l → ∃ node',
        node.resolve_params_with sub_resolve resolved = .ok node' ∧
          nodes'.get? id = some node' := by
  induction l generalizing nodes with
  | nil =>
      cases h
      simp
  | cons e rest ih =>
      rw [List.foldlM_cons] at h
      obtain ⟨next, hnext, hrest⟩ := Checks.bind_eq_ok.mp h
      obtain ⟨node', hnode', hset⟩ := Checks.bind_eq_ok.mp hnext
      cases hset
      rw [List.map_cons, List.nodup_cons] at hnodup
      obtain ⟨hkept, hresolved⟩ := ih hnodup.2 hrest
      constructor
      · intro hid
        rw [List.map_cons, List.mem_cons, not_or] at hid
        rw [hkept hid.2, Dict.get?_set_ne _ _ (Ne.symm hid.1)]
      · intro node hmem
        rcases List.mem_cons.mp hmem with rfl | hmem
        · exact ⟨node', hnode', by rw [hkept hnodup.1, Dict.get?_set_self]⟩
        · exact hresolved node hmem

/-- What resolving the nodes of a graph keeps. -/
theorem Graph.resolve_nodes_with_eq_ok {g m : Graph Sub}
    (h : g.resolve_nodes_with sub_resolve resolved = .ok m) :
    m.edges = g.edges ∧ m.params = g.params ∧
      ∀ id, m.nodes.get? id = none ∧ g.nodes.get? id = none ∨ ∃ node node',
        g.nodes.get? id = some node ∧ m.nodes.get? id = some node' ∧
          node' = { node with subgraph := node'.subgraph, params := node'.params } := by
  obtain ⟨nodes, hnodes, hm⟩ := Checks.bind_eq_ok.mp h
  cases hm
  refine ⟨rfl, rfl, fun id => ?_⟩
  obtain ⟨hkept, hresolved⟩ := resolve_loop g.nodes.nodup hnodes id
  cases hget : g.nodes.get? id with
  | none => exact .inl ⟨hkept ((Dict.get?_eq_none_iff _).mp hget), rfl⟩
  | some node =>
      obtain ⟨node', hnode', hget'⟩ := hresolved node ((Dict.mem_entries_iff _).mpr hget)
      exact .inr ⟨node, node', rfl, hget', Node.resolve_params_with_eq_ok hnode'⟩

theorem Graph.Valid.resolve_nodes_with {g m : Graph Sub} (hv : g.Valid)
    (h : g.resolve_nodes_with sub_resolve resolved = .ok m) : m.Valid := by
  obtain ⟨hedges, hparams, hnodes⟩ := Graph.resolve_nodes_with_eq_ok h
  have hdirection : ∀ r, m.port_direction r = g.port_direction r := by
    intro r
    unfold Graph.port_direction
    rcases hnodes r.node_id with ⟨hm, hg⟩ | ⟨node, node', hg, hm, heq⟩
    · rw [hm, hg]
    · rw [hm, hg, heq]
      rfl
  -- a node changes only in its params and its subgraph
  have hfound : ∀ {k node'}, m.nodes.get? k = some node' → ∃ node, g.nodes.get? k = some node ∧
      node'.id = node.id ∧ node'.group_id = node.group_id := by
    intro k node' hk
    rcases hnodes k with ⟨hm, -⟩ | ⟨node, node'', hg, hm, heq⟩
    · rw [hm] at hk
      cases hk
    · rw [hm, Option.some.injEq] at hk
      subst hk
      exact ⟨node, hg, by rw [heq], by rw [heq]⟩
  constructor
  · intro k n hk
    obtain ⟨node, hg, hid, -⟩ := hfound hk
    rw [hid, hv.node_id hg]
  · exact fun h => hv.param_name (hparams ▸ h)
  · exact fun h => hv.edge_id (hedges ▸ h)
  · exact fun h => (hdirection _).trans (hv.source_out (hedges ▸ h))
  · exact fun h => (hdirection _).trans (hv.target_in (hedges ▸ h))
  · intro k n gid hk hgid
    obtain ⟨node, hg, -, hgroup⟩ := hfound hk
    obtain ⟨owner, howner⟩ := hv.group hg (hgroup ▸ hgid)
    rcases hnodes gid with ⟨-, hnone⟩ | ⟨node, node', -, hm, -⟩
    · rw [hnone] at howner
      cases howner
    · exact ⟨node', hm⟩

end Structure

/-- The graph a run reads is valid. -/
theorem Graph.Valid.materialize {n : Nat} {g m : Graph (Nested n)} (hv : g.Valid)
    {overrides : Option (Dict String ParamValue)}
    (h : materialize_if_needed n g overrides = .ok m) : m.Valid := by
  unfold materialize_if_needed at h
  split at h
  · obtain ⟨resolved, -, hnodes⟩ := Checks.bind_eq_ok.mp h
    cases n with
    | zero => exact hv.resolve_nodes_with hnodes
    | succ n => exact hv.resolve_nodes_with hnodes
  · cases h
    exact hv

end EmergentFlow
