import EmergentFlow.Codegen.Rejection

/-!
# Codegen — MaterializeLaw

The references of a graph and of everything nested in it, as the materializer,
the validator and the compiler come across them. All three look a name up among
the params of the outermost graph, so they miss the same ones; a subgraph's own
params are never asked.
-/

namespace EmergentFlow

variable {Sub F ε : Type}

/-! ## Params at every level -/

/-- A node without what is nested in it. -/
def Node.shell (node : Node Sub) : Node Empty where
  id := node.id
  type := node.type
  label := node.label
  paradigm := node.paradigm
  params := node.params
  ports := node.ports
  position := node.position
  group_id := node.group_id

/-- A param of a node, however deep the node is nested. -/
structure ParamSite where
  node : Node Empty
  param : Param

def Node.param_sites_with (inside : Sub → List ParamSite) (node : Node Sub) : List ParamSite :=
  node.subgraph.toList.flatMap inside ++ node.params.map (⟨node.shell, ·⟩)

def Graph.param_sites_with (inside : Sub → List ParamSite) (g : Graph Sub) : List ParamSite :=
  g.nodes.values.flatMap (Node.param_sites_with inside)

/-- The params of all nodes of a nested graph. -/
def param_sites : (n : Nat) → Graph (Nested n) → List ParamSite
  | 0 => Graph.param_sites_with Empty.elim
  | n + 1 => Graph.param_sites_with (param_sites n)

theorem Graph.mem_param_sites_with {inside : Sub → List ParamSite} {g : Graph Sub}
    {s : ParamSite} : s ∈ g.param_sites_with inside ↔ ∃ id node, g.nodes.get? id = some node ∧
      ((∃ sub, node.subgraph = some sub ∧ s ∈ inside sub) ∨
        ∃ param ∈ node.params, s = ⟨node.shell, param⟩) := by
  simp only [Graph.param_sites_with, List.mem_flatMap, Dict.mem_values_iff, Node.param_sites_with,
    List.mem_append, List.mem_map, Option.mem_toList, eq_comm]
  constructor
  · rintro ⟨node, ⟨id, hid⟩, h⟩
    exact ⟨id, node, hid, h⟩
  · rintro ⟨id, node, hid, h⟩
    exact ⟨node, ⟨id, hid⟩, h⟩

/-- The param refers to none of these. -/
def ParamSite.Unresolved (names : List String) (s : ParamSite) : Prop :=
  ∃ ref, s.param.ref = some ref ∧ ref ∉ names

/-! ## Overrides

A run is handed any values. What `Param.value` makes of one is a param value, or
nothing when the validation of the assignment rejects it. -/

abbrev Overrides := Dict String (Option ParamValue)

/-- The overrides over the stored values. -/
def Graph.resolved (g : Graph Sub) (overrides : Overrides) : Overrides :=
  g.params.mapValues fun name param => (overrides.get? name).getD (some param.value)

/-- `resolve_graph_params`. -/
def resolve_given (g : Graph Sub) (overrides : Overrides) : Except CodegenError Overrides :=
  let unknown := overrides.keys.filter (· ∉ g.params.keys)
  if unknown = [] then .ok (g.resolved overrides)
  else .error (.unknown_overrides (unknown.insertionSort (· ≤ ·)))

/-- One param of a node with its reference resolved and assigned. -/
def Param.assign (resolved : Overrides) (node_id : String) (p : Param) :
    Except CodegenError Param :=
  match p.ref with
  | none => .ok p
  | some ref => do
      let given ← Checks.require (resolved.get? ref) (.undefined_ref node_id p.name ref)
      let value ← Checks.require given (.raised "ValidationError")
      pure { p with value }

section Level

variable (inside : Sub → Except CodegenError Sub)
  (f : String → Param → Except CodegenError Param)

/-- `_resolve_node_params`. -/
def Node.assign_params_with (node : Node Sub) : Except CodegenError (Node Sub) := do
  let subgraph ← node.subgraph.mapM inside
  let params ← node.params.mapM (f node.id)
  pure { node with subgraph, params }

def Graph.assign_params_with (g : Graph Sub) : Except CodegenError (Graph Sub) := do
  let nodes ← g.nodes.entries.foldlM (fun nodes e => do
    let node ← e.2.assign_params_with inside f
    pure (nodes.set e.1 node)) Dict.empty
  pure { g with nodes }

end Level

def assign_params (f : String → Param → Except CodegenError Param) :
    (n : Nat) → Graph (Nested n) → Except CodegenError (Graph (Nested n))
  | 0 => Graph.assign_params_with (fun sub => sub.elim) f
  | n + 1 => Graph.assign_params_with (assign_params f n) f

/-- `materialize_graph`, handed any values. -/
def materialize_given (n : Nat) (g : Graph (Nested n)) (overrides : Overrides) :
    Except CodegenError (Graph (Nested n)) := do
  let resolved ← resolve_given g overrides
  assign_params (Param.assign resolved) n g

/-! ## Filling in -/

/-- The param with the value that its reference stands for. -/
def Param.fill (value : String → Option ParamValue) (p : Param) : Param :=
  match p.ref.bind value with
  | none => p
  | some value => { p with value }

/-- The node with its params, and what is nested in it, mapped. -/
def Node.map_params_with (inside : Sub → Sub) (h : Param → Param) (node : Node Sub) : Node Sub :=
  { node with subgraph := node.subgraph.map inside, params := node.params.map h }

/-- A nested graph with the value of every reference filled in; everything else
is as it was. -/
def fill (value : String → Option ParamValue) : (n : Nat) → Graph (Nested n) → Graph (Nested n)
  | 0 => Graph.map_nodes (Node.map_params_with id (·.fill value))
  | n + 1 => Graph.map_nodes (Node.map_params_with (fill value n) (·.fill value))

/-- What a param of the graph stands for in a run. -/
def Graph.given (g : Graph Sub) (overrides : Overrides) (name : String) : Option ParamValue :=
  (g.params.get? name).bind fun param => (overrides.get? name).getD (some param.value)

/-! ## The traversal -/

section Traversal

variable {f : String → Param → Except CodegenError Param} {good : Param → Prop} {h : Param → Param}

/-- One node: its subgraph and its params all go through, or it fails. -/
theorem Node.assign_params_with_iff {inside : Sub → Except CodegenError Sub}
    {sites : Sub → List ParamSite} {inner : Sub → Sub}
    (hinside : ∀ sub sub', inside sub = .ok sub' ↔
      (∀ s ∈ sites sub, good s.param) ∧ sub' = inner sub)
    (hf : ∀ id p q, f id p = .ok q ↔ good p ∧ q = h p) {node node' : Node Sub} :
    node.assign_params_with inside f = .ok node' ↔
      (∀ s ∈ node.param_sites_with sites, good s.param) ∧
        node' = node.map_params_with inner h := by
  have hparams : ∀ params', node.params.mapM (f node.id) = .ok params' ↔
      (∀ p ∈ node.params, good p) ∧ params' = node.params.map h := fun _ =>
    Checks.mapM_iff (hf node.id)
  have hsub : ∀ sub', node.subgraph.mapM inside = .ok sub' ↔
      (∀ s ∈ node.subgraph.toList.flatMap sites, good s.param) ∧
        sub' = node.subgraph.map inner := by
    intro sub'
    cases node.subgraph with
    | none => simp [pure, Except.pure, eq_comm]
    | some sub =>
        show Except.map some (inside sub) = .ok sub' ↔ _
        rw [Checks.map_eq_ok]
        simp [hinside, and_assoc, eq_comm]
  -- the subgraph goes first, as in the source
  rw [Node.assign_params_with, Checks.bind_eq_ok]
  simp only [Node.param_sites_with, List.forall_mem_append, List.forall_mem_map]
  constructor
  · rintro ⟨sub', hsub', hrest⟩
    obtain ⟨params', hparams', hpure⟩ := Checks.bind_eq_ok.mp hrest
    obtain ⟨hgoods, rfl⟩ := (hsub _).mp hsub'
    obtain ⟨hgood, rfl⟩ := (hparams _).mp hparams'
    cases hpure
    exact ⟨⟨hgoods, hgood⟩, rfl⟩
  · rintro ⟨⟨hgoods, hgood⟩, rfl⟩
    exact ⟨_, (hsub _).mpr ⟨hgoods, rfl⟩,
      Checks.bind_eq_ok.mpr ⟨_, (hparams _).mpr ⟨hgood, rfl⟩, rfl⟩⟩

theorem Graph.assign_params_with_iff {inside : Sub → Except CodegenError Sub}
    {sites : Sub → List ParamSite} {inner : Sub → Sub}
    (hinside : ∀ sub sub', inside sub = .ok sub' ↔
      (∀ s ∈ sites sub, good s.param) ∧ sub' = inner sub)
    (hf : ∀ id p q, f id p = .ok q ↔ good p ∧ q = h p) {g g' : Graph Sub} :
    g.assign_params_with inside f = .ok g' ↔
      (∀ s ∈ g.param_sites_with sites, good s.param) ∧
        g' = g.map_nodes (Node.map_params_with inner h) := by
  have hnode : ∀ node node' : Node Sub, node.assign_params_with inside f = .ok node' ↔
      (∀ s ∈ node.param_sites_with sites, good s.param) ∧ node' = node.map_params_with inner h :=
    fun _ _ => Node.assign_params_with_iff hinside hf
  rw [Graph.assign_params_with, Checks.bind_eq_ok, Graph.param_sites_with, List.forall_mem_flatMap]
  constructor
  · rintro ⟨nodes, hnodes, hpure⟩
    obtain ⟨hgood, rfl⟩ := (Checks.foldlM_set_iff hnode).mp hnodes
    cases hpure
    exact ⟨hgood, rfl⟩
  · rintro ⟨hgood, rfl⟩
    exact ⟨_, (Checks.foldlM_set_iff hnode).mpr ⟨hgood, rfl⟩, rfl⟩

end Traversal

/-- The traversal goes through exactly when every param of every node does. -/
theorem assign_params_iff {f : String → Param → Except CodegenError Param} {good : Param → Prop}
    {value : String → Option ParamValue}
    (hf : ∀ id p q, f id p = .ok q ↔ good p ∧ q = p.fill value) {n : Nat}
    {g g' : Graph (Nested n)} :
    assign_params f n g = .ok g' ↔ (∀ s ∈ param_sites n g, good s.param) ∧ g' = fill value n g := by
  induction n with
  | zero => exact Graph.assign_params_with_iff (fun sub => sub.elim) hf
  | succ n ih => exact Graph.assign_params_with_iff (fun _ _ => ih) hf

/-! ## The materializer -/

/-- The reference of the param, if it has one, stands for a value. -/
def Param.Stands (value : String → Option ParamValue) (p : Param) : Prop :=
  ∀ ref, p.ref = some ref → ∃ v, value ref = some v

theorem Param.assign_iff {resolved : Overrides} {id : String} {p q : Param} :
    p.assign resolved id = .ok q ↔ p.Stands (fun ref => (resolved.get? ref).join) ∧
      q = p.fill fun ref => (resolved.get? ref).join := by
  rw [Param.assign, Param.Stands, Param.fill]
  cases href : p.ref with
  | none => simp [eq_comm]
  | some ref =>
      cases hget : resolved.get? ref with
      | none => simp [hget, bind, Except.bind]
      | some given => cases given <;> simp [hget, bind, Except.bind, pure, Except.pure, eq_comm]

theorem Graph.get?_resolved (g : Graph Sub) (overrides : Overrides) (ref : String) :
    ((g.resolved overrides).get? ref).join = g.given overrides ref := by
  rw [Graph.resolved, Dict.get?_mapValues, Graph.given]
  cases g.params.get? ref <;> rfl

/-- An override names a param that the graph does not have. -/
def Graph.Unknown (g : Graph Sub) (overrides : Overrides) : Prop :=
  ∃ name ∈ overrides.keys, name ∉ g.params.keys

theorem resolve_given_cases (g : Graph Sub) (overrides : Overrides) :
    (g.Unknown overrides ∧ ∃ names, resolve_given g overrides = .error (.unknown_overrides names)) ∨
      ¬ g.Unknown overrides ∧ resolve_given g overrides = .ok (g.resolved overrides) := by
  rw [resolve_given]
  by_cases hknown : overrides.keys.filter (· ∉ g.params.keys) = []
  · rw [if_pos hknown]
    refine .inr ⟨?_, rfl⟩
    rintro ⟨name, hname, hnot⟩
    have hmem : name ∈ overrides.keys.filter (· ∉ g.params.keys) :=
      List.mem_filter.mpr ⟨hname, by simpa using hnot⟩
    rw [hknown] at hmem
    cases hmem
  · rw [if_neg hknown]
    obtain ⟨name, hname⟩ := List.exists_mem_of_ne_nil _ hknown
    obtain ⟨hkey, hnot⟩ := List.mem_filter.mp hname
    exact .inl ⟨⟨name, hkey, by simpa using hnot⟩, _, rfl⟩

theorem materialize_given_iff {n : Nat} {g g' : Graph (Nested n)} {overrides : Overrides} :
    materialize_given n g overrides = .ok g' ↔ ¬ g.Unknown overrides ∧
      (∀ s ∈ param_sites n g, s.param.Stands (g.given overrides)) ∧
        g' = fill (g.given overrides) n g := by
  rw [materialize_given]
  rcases resolve_given_cases g overrides with ⟨hunknown, names, herror⟩ | ⟨hknown, hok⟩
  · rw [herror]
    exact ⟨nofun, fun h => absurd hunknown h.1⟩
  · have hassign : ∀ id p q, Param.assign (g.resolved overrides) id p = .ok q ↔
        p.Stands (g.given overrides) ∧ q = p.fill (g.given overrides) := by
      intro id p q
      rw [Param.assign_iff]
      simp only [Graph.get?_resolved]
    rw [hok]
    refine (assign_params_iff hassign).trans ?_
    simp only [hknown, not_false_eq_true, true_and]

/-- The override that the reference takes is rejected when it is assigned. -/
def ParamSite.Rejected (overrides : Overrides) (s : ParamSite) : Prop :=
  ∃ ref, s.param.ref = some ref ∧ overrides.get? ref = some none

theorem Graph.given_eq_none_iff {g : Graph Sub} {overrides : Overrides} {ref : String} :
    g.given overrides ref = none ↔
      ref ∉ g.params.keys ∨ ref ∈ g.params.keys ∧ overrides.get? ref = some none := by
  rw [Graph.given, ← Dict.get?_eq_none_iff, Dict.mem_keys_iff]
  cases g.params.get? ref with
  | none => simp
  | some param => cases overrides.get? ref <;> simp

/-- What materializing fails on. -/
theorem materialize_given_fails_iff {n : Nat} {g : Graph (Nested n)} {overrides : Overrides} :
    (∃ e, materialize_given n g overrides = .error e) ↔ g.Unknown overrides ∨
      (∃ s ∈ param_sites n g, s.Unresolved g.params.keys) ∨
        ∃ s ∈ param_sites n g, s.Rejected overrides := by
  have hok : (∃ e, materialize_given n g overrides = .error e) ↔
      ¬ ∃ g', materialize_given n g overrides = .ok g' := by
    cases materialize_given n g overrides <;> simp
  simp only [hok, materialize_given_iff]
  constructor
  · intro hnot
    -- with no reason to fail every reference stands, which is what success asks for
    by_contra hno
    rw [not_or, not_or] at hno
    obtain ⟨hknown, hresolved, haccepted⟩ := hno
    refine hnot ⟨_, hknown, fun s hs ref href => ?_, rfl⟩
    rw [← Option.ne_none_iff_exists']
    intro hnone
    rcases Graph.given_eq_none_iff.mp hnone with hmissing | ⟨-, hrejected⟩
    · exact hresolved ⟨s, hs, ref, href, hmissing⟩
    · exact haccepted ⟨s, hs, ref, href, hrejected⟩
  · rintro hfails ⟨g', hknown, hstands, -⟩
    rcases hfails with hunknown | ⟨s, hs, ref, href, hmissing⟩ | ⟨s, hs, ref, href, hrejected⟩
    · exact hknown hunknown
    · obtain ⟨value, hvalue⟩ := hstands s hs ref href
      rw [Graph.given_eq_none_iff.mpr (.inl hmissing)] at hvalue
      cases hvalue
    · obtain ⟨value, hvalue⟩ := hstands s hs ref href
      have hmem : ref ∈ g.params.keys := by
        by_contra hmissing
        rw [Graph.given_eq_none_iff.mpr (.inl hmissing)] at hvalue
        cases hvalue
      rw [Graph.given_eq_none_iff.mpr (.inr ⟨hmem, hrejected⟩)] at hvalue
      cases hvalue

/-! ## Param values as overrides -/

theorem resolve_nodes_eq (resolved : Dict String ParamValue) (n : Nat) (g : Graph (Nested n)) :
    resolve_nodes n resolved g = assign_params (Param.resolve resolved) n g := by
  induction n with
  | zero => rfl
  | succ n ih =>
      show g.resolve_nodes_with (resolve_nodes n) resolved = _
      have hinner : resolve_nodes n resolved = assign_params (Param.resolve resolved) n :=
        funext ih
      rw [assign_params, ← hinner]
      rfl

theorem Param.resolve_iff {resolved : Dict String ParamValue} {id : String} {p q : Param} :
    p.resolve resolved id = .ok q ↔ p.Stands resolved.get? ∧ q = p.fill resolved.get? := by
  rw [Param.resolve, Param.Stands, Param.fill]
  cases href : p.ref with
  | none => simp [eq_comm]
  | some ref =>
      cases hget : resolved.get? ref <;>
        simp [hget, bind, Except.bind, pure, Except.pure, eq_comm]

/-- With overrides that are param values this is the `materialize_graph` that a
run goes through. -/
theorem materialize_given_of_values {n : Nat} {g g' : Graph (Nested n)}
    {overrides : Dict String ParamValue} :
    materialize_given n g (overrides.mapValues fun _ => some) = .ok g' ↔
      materialize_graph n g (some overrides) = .ok g' := by
  rw [materialize_given, resolve_given, Dict.keys_mapValues, materialize_graph,
    resolve_graph_params, Option.getD_some]
  by_cases hknown : overrides.keys.filter (· ∉ g.params.keys) = []
  · simp only [if_pos hknown]
    let resolved := g.params.mapValues fun name param => (overrides.get? name).getD param.value
    -- where every override is accepted, both give a name the same value
    have hvalue : ∀ ref, ((g.resolved (overrides.mapValues fun _ => some)).get? ref).join =
        resolved.get? ref := by
      intro ref
      rw [Graph.get?_resolved, Graph.given, Dict.get?_mapValues, Dict.get?_mapValues]
      cases g.params.get? ref with
      | none => rfl
      | some param => cases overrides.get? ref <;> rfl
    have hassign : ∀ id p q, Param.assign (g.resolved (overrides.mapValues fun _ => some)) id p
        = .ok q ↔ p.Stands resolved.get? ∧ q = p.fill resolved.get? := by
      intro id p q
      rw [Param.assign_iff]
      simp only [hvalue]
    refine (assign_params_iff hassign).trans ?_
    show _ ↔ resolve_nodes n resolved g = .ok g'
    rw [resolve_nodes_eq, assign_params_iff fun _ _ _ => Param.resolve_iff]
  · simp only [if_neg hknown]
    constructor
    · intro h
      cases h
    · intro h
      cases h

/-! ## The validator and the compiler -/

section Walkers

variable {v : Validator} {n : Nat} {g : Graph (Nested n)} {names : List String}

theorem refsResolved_iff_level {inside : Sub → Prop} {sites : Sub → List ParamSite} {g : Graph Sub}
    (hinside : ∀ sub, inside sub ↔ ∀ s ∈ sites sub, ¬ s.Unresolved names) :
    g.refs_resolved_with inside names ↔ ∀ s ∈ g.param_sites_with sites, ¬ s.Unresolved names := by
  simp only [Graph.refs_resolved_with, Graph.param_sites_with, List.forall_mem_flatMap,
    Dict.mem_values_iff, Node.param_sites_with, List.forall_mem_append, List.forall_mem_map,
    hinside, ParamSite.Unresolved, not_exists, not_and, not_not, Option.mem_toList]
  constructor
  · rintro h node ⟨id, hnode⟩
    exact ⟨(h id node hnode).2, (h id node hnode).1⟩
  · intro h id node hnode
    exact ⟨(h node ⟨id, hnode⟩).2, (h node ⟨id, hnode⟩).1⟩

theorem refsResolved_iff :
    RefsResolved names n g ↔ ∀ s ∈ param_sites n g, ¬ s.Unresolved names := by
  induction n with
  | zero => exact refsResolved_iff_level fun sub => sub.elim
  | succ n ih => exact refsResolved_iff_level fun _ => ih

theorem mem_ref_diagnostics_level {top : Dict String Param} {inside : Sub → List Diagnostic}
    {sites : Sub → List ParamSite} {g : Graph Sub} {d : Diagnostic}
    (hinside : ∀ sub, d ∈ inside sub ↔
      ∃ s ∈ sites sub, v.ref_diagnostic top s.node s.param = some d) :
    d ∈ v.ref_diagnostics_with inside top g ↔
      ∃ s ∈ g.param_sites_with sites, v.ref_diagnostic top s.node s.param = some d := by
  constructor
  · intro h
    obtain ⟨node, hnode, hd⟩ := List.mem_flatMap.mp h
    obtain ⟨id, hid⟩ := Graph.mem_sorted_nodes.mp hnode
    rcases List.mem_append.mp hd with hd | hd
    · cases hsub : node.subgraph with
      | none =>
          rw [hsub] at hd
          cases hd
      | some sub =>
          rw [hsub] at hd
          obtain ⟨s, hs, hfound⟩ := (hinside sub).mp hd
          exact ⟨s, Graph.mem_param_sites_with.mpr ⟨id, node, hid, .inl ⟨sub, hsub, hs⟩⟩, hfound⟩
    · obtain ⟨param, hparam, hfound⟩ := List.mem_filterMap.mp hd
      exact ⟨⟨node.shell, param⟩,
        Graph.mem_param_sites_with.mpr ⟨id, node, hid, .inr ⟨param, hparam, rfl⟩⟩, hfound⟩
  · rintro ⟨s, hs, hfound⟩
    obtain ⟨id, node, hid, hs⟩ := Graph.mem_param_sites_with.mp hs
    refine List.mem_flatMap.mpr ⟨node, Graph.mem_sorted_nodes.mpr ⟨id, hid⟩, ?_⟩
    rcases hs with ⟨sub, hsub, hs⟩ | ⟨param, hparam, rfl⟩
    · refine List.mem_append_left _ ?_
      rw [hsub]
      exact (hinside sub).mpr ⟨s, hs, hfound⟩
    · exact List.mem_append_right _ (List.mem_filterMap.mpr ⟨param, hparam, hfound⟩)

/-- The findings about references, site by site. -/
theorem mem_ref_diagnostics {top : Dict String Param} {d : Diagnostic} :
    d ∈ v.ref_diagnostics top n g ↔
      ∃ s ∈ param_sites n g, v.ref_diagnostic top s.node s.param = some d := by
  induction n with
  | zero => exact mem_ref_diagnostics_level fun sub => sub.elim
  | succ n ih => exact mem_ref_diagnostics_level fun _ => ih

/-- What the validator calls unresolved. -/
theorem ref_unresolved_iff {top : Dict String Param} {s : ParamSite} :
    (∃ d, v.ref_diagnostic top s.node s.param = some d ∧ d.code = "ref_unresolved") ↔
      s.Unresolved top.keys := by
  rw [Validator.ref_diagnostic, ParamSite.Unresolved]
  cases s.param.ref with
  | none => simp
  | some ref =>
      simp only [Option.bind_some, Option.some.injEq, exists_eq_left', ← Dict.get?_eq_none_iff]
      cases top.get? ref with
      | none => simp
      | some graph_param =>
          cases (v.registry s.node.type).bind (·.spec s.param.name) with
          | none => simp
          | some spec =>
              simp only [reduceCtorEq, iff_false]
              rintro ⟨d, hd, hcode⟩
              split at hd
              · cases hd
                simp at hcode
              · split at hd
                · cases hd
                · cases hd
                  simp at hcode

/-- What the compiler's own look at a reference refuses. -/
theorem param_expr_ref_error_iff {kwargs : Dict String String} {s : ParamSite}
    {refs : Dict String String} :
    (∃ e, param_expr_ref kwargs s.node.id refs s.param = .error e) ↔ s.Unresolved kwargs.keys := by
  rw [param_expr_ref, ParamSite.Unresolved]
  cases s.param.ref with
  | none => simp
  | some ref =>
      cases hget : kwargs.get? ref with
      | none => simp [hget, bind, Except.bind, (Dict.get?_eq_none_iff _).mp hget]
      | some name =>
          simp [hget, bind, Except.bind, pure, Except.pure, (Dict.mem_keys_iff _).mpr ⟨name, hget⟩]

end Walkers

/-! ## The law -/

theorem Param.fill_ref (value : String → Option ParamValue) (p : Param) :
    (p.fill value).ref = p.ref := by
  rw [Param.fill]
  split <;> rfl

theorem Param.value_fill {value : String → Option ParamValue} {p : Param} (h : p.Stands value)
    {ref : String} (href : p.ref = some ref) : value ref = some (p.fill value).value := by
  obtain ⟨v, hv⟩ := h ref href
  rw [Param.fill, href, Option.bind_some, hv]

/-- The params of a mapped graph are mapped params. -/
theorem param_of_mem_map_nodes {inside inside' : Sub → List ParamSite} {inner : Sub → Sub}
    {h : Param → Param}
    (hinside : ∀ sub, ∀ s ∈ inside' (inner sub), ∃ s₀ ∈ inside sub, s.param = h s₀.param)
    {g : Graph Sub} {s : ParamSite}
    (hs : s ∈ (g.map_nodes (Node.map_params_with inner h)).param_sites_with inside') :
    ∃ s₀ ∈ g.param_sites_with inside, s.param = h s₀.param := by
  obtain ⟨id, node', hid, hs⟩ := Graph.mem_param_sites_with.mp hs
  rw [Graph.get?_map_nodes, Option.map_eq_some_iff] at hid
  obtain ⟨node, hid, rfl⟩ := hid
  rcases hs with ⟨sub', hsub, hs⟩ | ⟨param, hparam, rfl⟩
  · obtain ⟨sub, hsub₀, rfl⟩ := Option.map_eq_some_iff.mp hsub
    obtain ⟨s₀, hs₀, heq⟩ := hinside sub s hs
    exact ⟨s₀, Graph.mem_param_sites_with.mpr ⟨id, node, hid, .inl ⟨sub, hsub₀, hs₀⟩⟩, heq⟩
  · obtain ⟨p, hp, rfl⟩ := List.mem_map.mp hparam
    exact ⟨⟨node.shell, p⟩, Graph.mem_param_sites_with.mpr ⟨id, node, hid, .inr ⟨p, hp, rfl⟩⟩, rfl⟩

theorem param_of_mem_fill {value : String → Option ParamValue} {n : Nat} {g : Graph (Nested n)}
    {s : ParamSite} (hs : s ∈ param_sites n (fill value n g)) :
    ∃ s₀ ∈ param_sites n g, s.param = s₀.param.fill value := by
  induction n generalizing s with
  | zero => exact param_of_mem_map_nodes (fun sub => sub.elim) hs
  | succ n ih => exact param_of_mem_map_nodes (fun _ _ hs => ih hs) hs

/-- What materializing does, when it fails, and that the validator and the
compiler miss the same references. -/
structure MaterializationLaw (v : Validator) (em : Emission F ε) (n : Nat)
    (g : Graph (Nested n)) : Prop where
  runs : ∀ overrides g', materialize_given n g (overrides.mapValues fun _ => some) = .ok g' ↔
    materialize_graph n g (some overrides) = .ok g'
  filled : ∀ overrides g', materialize_given n g overrides = .ok g' →
    g' = fill (g.given overrides) n g
  holds : ∀ overrides g', materialize_given n g overrides = .ok g' → ∀ s ∈ param_sites n g',
    ∀ ref, s.param.ref = some ref → g.given overrides ref = some s.param.value
  fails : ∀ overrides, (∃ e, materialize_given n g overrides = .error e) ↔ g.Unknown overrides ∨
    (∃ s ∈ param_sites n g, s.Unresolved g.params.keys) ∨
      ∃ s ∈ param_sites n g, s.Rejected overrides
  reported : ∀ s ∈ param_sites n g, s.Unresolved g.params.keys ↔
    ∃ d ∈ v.ref_diagnostics g.params n g, d.code = "ref_unresolved" ∧
      v.ref_diagnostic g.params s.node s.param = some d
  only_reported : ∀ d ∈ v.ref_diagnostics g.params n g, d.code = "ref_unresolved" →
    ∃ s ∈ param_sites n g, s.Unresolved g.params.keys ∧
      v.ref_diagnostic g.params s.node s.param = some d
  refused : ∀ s ∈ param_sites n g, ∀ refs, s.Unresolved g.params.keys ↔
    ∃ e, param_expr_ref (em.build_graph_param_names n g) s.node.id refs s.param = .error e
  gated : (∃ s ∈ param_sites n g, s.Unresolved g.params.keys) →
    compile_to_code v em n g = .error (.codegen .validation)
  assembled : (∀ s ∈ param_sites n g, ¬ s.Unresolved g.params.keys) → ∀ overrides,
    Checks.RaisesOnly (fun c => NotOfRefs c.structural) ((nested_assembler v.registry em n).assemble
      g overrides (em.build_graph_param_names n g))

theorem materialization_law (v : Validator) (em : Emission F ε) (n : Nat) (g : Graph (Nested n)) :
    MaterializationLaw v em n g := by
  have hkeys : (em.build_graph_param_names n g).keys = g.params.keys := Dict.keys_mapValues _ _
  refine {
    runs := fun _ _ => materialize_given_of_values
    filled := fun _ _ h => (materialize_given_iff.mp h).2.2, holds := ?_
    fails := fun _ => materialize_given_fails_iff, reported := ?_, only_reported := ?_
    refused := ?_, gated := ?_, assembled := ?_ }
  · intro overrides g' h s hs ref href
    obtain ⟨-, hstands, rfl⟩ := materialize_given_iff.mp h
    obtain ⟨s₀, hs₀, hparam⟩ := param_of_mem_fill hs
    rw [hparam, Param.fill_ref] at href
    rw [hparam]
    exact Param.value_fill (hstands s₀ hs₀) href
  · intro s hs
    rw [← ref_unresolved_iff (v := v)]
    constructor
    · rintro ⟨d, hd, hcode⟩
      exact ⟨d, mem_ref_diagnostics.mpr ⟨s, hs, hd⟩, hcode, hd⟩
    · rintro ⟨d, -, hcode, hd⟩
      exact ⟨d, hd, hcode⟩
  · intro d hd hcode
    obtain ⟨s, hs, hfound⟩ := mem_ref_diagnostics.mp hd
    exact ⟨s, hs, ref_unresolved_iff.mp ⟨d, hfound, hcode⟩, hfound⟩
  · intro s _ refs
    rw [param_expr_ref_error_iff, hkeys]
  · rintro ⟨s, hs, hmissing⟩
    have hfails : v.passes n g = false := by
      by_contra hpasses
      rw [Bool.not_eq_false] at hpasses
      exact refsResolved_iff.mp (Validator.gated hpasses).refs s hs hmissing
    rw [compile_to_code, hfails]
    rfl
  · intro hresolved overrides
    refine assemble_not_of_refs ?_
    rw [hkeys]
    exact refsResolved_iff.mpr hresolved

/-- A node of an unregistered type that refers to a param of the graph. -/
def referring_node : Node Empty where
  id := "a"
  type := "t"
  params := [{ name := "x", type_token := "str", ref := some "p" }]

def one_reference : Graph Empty :=
  { params := Dict.empty.set "p" { name := "p", type_token := "str", value := .str "v" }
    nodes := Dict.empty.set "a" referring_node }

/-- The validator reports a reference that resolves; and a value that is rejected
makes materializing fail though its name is known and every reference resolves. -/
theorem reported_reference_resolves :
    (¬ ∀ (v : Validator) (n : Nat) (g : Graph (Nested n)), g.Valid →
      v.ref_diagnostics g.params n g ≠ [] → ∃ e, materialize_given n g Dict.empty = .error e) ∧
    ¬ ∀ (n : Nat) (g : Graph (Nested n)) (overrides : Overrides), g.Valid →
      (∃ e, materialize_given n g overrides = .error e) → g.Unknown overrides ∨
        ∃ s ∈ param_sites n g, s.Unresolved g.params.keys := by
  have hvalid : one_reference.Valid := Graph.validate_structure_eq_ok.mp rfl
  constructor
  · intro hclaim
    -- no node type is registered, so the validator knows of no param that may refer
    let v : Validator := {
      registry := fun _ => none, types := .new, infer_types := fun _ _ types => types
      validity := fun _ _ => .ok [], repr := id }
    obtain ⟨e, he⟩ := hclaim v 0 one_reference hvalid nofun
    have hok : materialize_given 0 one_reference Dict.empty =
        .ok (fill (one_reference.given Dict.empty) 0 one_reference) := rfl
    rw [hok] at he
    cases he
  · intro hclaim
    have hfails : materialize_given 0 one_reference (Dict.empty.set "p" none)
        = .error (.raised "ValidationError") := rfl
    rcases hclaim 0 one_reference (Dict.empty.set "p" none) hvalid ⟨_, hfails⟩ with h | h
    · obtain ⟨name, hname, hnot⟩ := h
      exact hnot hname
    · obtain ⟨s, hs, ref, href, hnot⟩ := h
      have hsites : param_sites 0 one_reference =
          [⟨referring_node, { name := "x", type_token := "str", ref := some "p" }⟩] := rfl
      rw [hsites, List.mem_singleton] at hs
      subst hs
      cases href
      exact hnot (by decide)

end EmergentFlow
