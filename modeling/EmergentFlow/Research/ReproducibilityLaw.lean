import EmergentFlow.Research.Reproducibility

/-!
# Research — ReproducibilityLaw

What a run used against what is recorded of it. A run executes the materialized
graph, composites and all; the capture walks the outermost nodes of the graph as
it is stored. The two agree exactly when every seed a node runs with is the last
number stored under a seed's name on the outermost node of that id, and every
data source runs with the document that is stored there.
-/

namespace EmergentFlow

variable {Sub Hash : Type}

/-! ## The nodes of a run -/

def Graph.all_nodes_with (inside : Sub → List (Node Empty)) (g : Graph Sub) : List (Node Empty) :=
  g.nodes.values.flatMap fun node => node.shell :: node.subgraph.toList.flatMap inside

/-- The nodes at every depth. -/
def all_nodes : (n : Nat) → Graph (Nested n) → List (Node Empty)
  | 0 => Graph.all_nodes_with Empty.elim
  | n + 1 => Graph.all_nodes_with (all_nodes n)

def Graph.inner_nodes_with (inside : Sub → List (Node Empty)) (g : Graph Sub) :
    List (Node Empty) :=
  g.nodes.values.flatMap fun node => node.subgraph.toList.flatMap inside

/-- The nodes of the composites. -/
def inner_nodes : (n : Nat) → Graph (Nested n) → List (Node Empty)
  | 0 => Graph.inner_nodes_with Empty.elim
  | n + 1 => Graph.inner_nodes_with (all_nodes n)

theorem Graph.mem_all_nodes_with {inside : Sub → List (Node Empty)} {g : Graph Sub}
    {node : Node Empty} : node ∈ g.all_nodes_with inside ↔
      (∃ id outer, g.nodes.get? id = some outer ∧ node = outer.shell) ∨
        node ∈ g.inner_nodes_with inside := by
  simp only [Graph.all_nodes_with, Graph.inner_nodes_with, List.mem_flatMap, List.mem_cons,
    Dict.mem_values_iff]
  constructor
  · rintro ⟨outer, ⟨id, hid⟩, rfl | hinner⟩
    · exact .inl ⟨id, outer, hid, rfl⟩
    · exact .inr ⟨outer, ⟨id, hid⟩, hinner⟩
  · rintro (⟨id, outer, hid, rfl⟩ | ⟨outer, hid, hinner⟩)
    · exact ⟨outer, ⟨id, hid⟩, .inl rfl⟩
    · exact ⟨outer, hid, .inr hinner⟩

theorem mem_all_nodes {n : Nat} {g : Graph (Nested n)} {node : Node Empty} :
    node ∈ all_nodes n g ↔ (∃ id outer, g.nodes.get? id = some outer ∧ node = outer.shell) ∨
      node ∈ inner_nodes n g := by
  cases n with
  | zero => exact Graph.mem_all_nodes_with
  | succ n => exact Graph.mem_all_nodes_with

/-- The node of a run at the place of a stored one. -/
theorem materialize_nodes {n : Nat} {g m : Graph (Nested n)}
    {overrides : Option (Dict String ParamValue)}
    (h : materialize_if_needed n g overrides = .ok m) (id : String) :
    m.nodes.get? id = none ∧ g.nodes.get? id = none ∨ ∃ node ran,
      g.nodes.get? id = some node ∧ m.nodes.get? id = some ran ∧
        ran = { node with subgraph := ran.subgraph, params := ran.params } := by
  unfold materialize_if_needed at h
  split at h
  · obtain ⟨resolved, -, hnodes⟩ := Checks.bind_eq_ok.mp h
    cases n with
    | zero => exact (Graph.resolve_nodes_with_eq_ok hnodes).2.2 id
    | succ n => exact (Graph.resolve_nodes_with_eq_ok hnodes).2.2 id
  · cases h
    cases hget : g.nodes.get? id with
    | none => exact .inl ⟨rfl, rfl⟩
    | some node => exact .inr ⟨node, node, rfl, rfl, rfl⟩

/-! ## What a run used -/

/-- The node carries the seed. -/
def Node.Carries (node : Node Sub) (v : ParamValue) : Prop :=
  v ≠ .none ∧ ∃ p ∈ node.params, p.name ∈ SEED_PARAM_NAMES ∧ p.value = v

/-- Some node of that id carries the seed. -/
def Seeded (nodes : List (Node Empty)) (id : String) (v : ParamValue) : Prop :=
  ∃ node ∈ nodes, node.id = id ∧ node.Carries v

/-- Some data source of that id has the document. -/
def Sourced (str : String → Option String → String) (nodes : List (Node Empty)) (id : String)
    (document : ParamValue) : Prop :=
  ∃ node ∈ nodes, node.id = id ∧ node.is_source = true ∧ node.snapshot.dumped str = document

/-- The capture records the seeds and the data sources of these nodes. -/
structure CaptureExact (digest : ParamValue → Hash) (str : String → Option String → String)
    (c : ReproducibilityCapture Hash) (nodes : List (Node Empty)) : Prop where
  seeds : ∀ id v, c.seeds.get? id = some v ↔ Seeded nodes id v
  content_hashes : ∀ id h, c.content_hashes.get? id = some h ↔
    ∃ document, Sourced str nodes id document ∧ digest document = h

/-- What a run used is what is stored on the outermost nodes. -/
structure StoredAsRun (str : String → Option String → String) (n : Nat)
    (g m : Graph (Nested n)) : Prop where
  own : ∀ id node ran v, g.nodes.get? id = some node → m.nodes.get? id = some ran →
    ran.Carries v → node.stored_seed = some v
  used : ∀ id node v, g.nodes.get? id = some node → node.stored_seed = some v →
    Seeded (all_nodes n m) id v
  nested : ∀ ran ∈ inner_nodes n m, ∀ v, ran.Carries v →
    ∃ node, g.nodes.get? ran.id = some node ∧ node.stored_seed = some v
  own_source : ∀ id node ran, g.nodes.get? id = some node → m.nodes.get? id = some ran →
    ran.is_source = true → node.snapshot.dumped str = ran.snapshot.dumped str
  nested_source : ∀ ran ∈ inner_nodes n m, ran.is_source = true →
    ∃ node, g.nodes.get? ran.id = some node ∧ node.is_source = true ∧
      node.snapshot.dumped str = ran.snapshot.dumped str

/-! ## Recorded against used -/

section Exact

variable {str : String → Option String → String} {n : Nat} {g m : Graph (Nested n)}
  {overrides : Option (Dict String ParamValue)}

/-- Reading `stored` off the outermost nodes finds what the nodes of the run
`uses`: at each outermost node nothing else is used, what is stored is used by
some node of that id, and a nested node uses what is stored under its id. -/
theorem recorded_exact_iff {β : Type} (stored : Node (Nested n) → Option β)
    (uses : Node Empty → β → Prop) (hv : g.Valid)
    (hrun : materialize_if_needed n g overrides = .ok m) :
    (∀ id b, (g.nodes.get? id).bind stored = some b ↔
      ∃ ran ∈ all_nodes n m, ran.id = id ∧ uses ran b) ↔
      (∀ id node ran b, g.nodes.get? id = some node → m.nodes.get? id = some ran →
        uses ran.shell b → stored node = some b) ∧
      (∀ id node b, g.nodes.get? id = some node → stored node = some b →
        ∃ ran ∈ all_nodes n m, ran.id = id ∧ uses ran b) ∧
      ∀ ran ∈ inner_nodes n m, ∀ b, uses ran b →
        ∃ node, g.nodes.get? ran.id = some node ∧ stored node = some b := by
  have hran := hv.materialize hrun
  simp only [Option.bind_eq_some_iff]
  constructor
  · intro hexact
    refine ⟨?_, fun id node b hid hstored => (hexact id b).mp ⟨node, hid, hstored⟩, ?_⟩
    · intro id node ran b hid hget huses
      have hmem : ran.shell ∈ all_nodes n m := mem_all_nodes.mpr (.inl ⟨id, ran, hget, rfl⟩)
      obtain ⟨found, hfound, hstored⟩ :=
        (hexact id b).mpr ⟨ran.shell, hmem, hran.node_id hget, huses⟩
      rw [hid, Option.some.injEq] at hfound
      rw [hfound, hstored]
    · intro ran hinner b huses
      exact (hexact ran.id b).mpr ⟨ran, mem_all_nodes.mpr (.inr hinner), rfl, huses⟩
  · rintro ⟨hown, hused, hnested⟩ id b
    constructor
    · rintro ⟨node, hid, hstored⟩
      exact hused id node b hid hstored
    · rintro ⟨ran, hmem, rfl, huses⟩
      -- a node that ran is one of the graph or inside one
      rcases mem_all_nodes.mp hmem with ⟨id, outer, hget, rfl⟩ | hinner
      · have hid : outer.shell.id = id := hran.node_id hget
        rcases materialize_nodes hrun id with ⟨hnone, -⟩ | ⟨node, ran, hnode, -, -⟩
        · rw [hnone] at hget
          cases hget
        · exact ⟨node, hid ▸ hnode, hown id node outer b hnode hget huses⟩
      · exact hnested ran hinner b huses

/-- The document of a data source. -/
def Node.source_document (str : String → Option String → String) (node : Node Sub) :
    Option ParamValue :=
  if node.is_source then some (node.snapshot.dumped str) else none

theorem Node.source_document_eq_some {node : Node Sub} {document : ParamValue} :
    node.source_document str = some document ↔
      node.is_source = true ∧ node.snapshot.dumped str = document := by
  rw [Node.source_document]
  cases hsource : node.is_source <;> simp

/-- A node of the run is a data source as the stored one is. -/
theorem is_source_of_materialize (hrun : materialize_if_needed n g overrides = .ok m)
    {id : String} {node ran : Node (Nested n)} (hid : g.nodes.get? id = some node)
    (hget : m.nodes.get? id = some ran) : ran.is_source = node.is_source := by
  rcases materialize_nodes hrun id with ⟨hnone, -⟩ | ⟨node', ran', hid', hget', heq⟩
  · rw [hnone] at hget
    cases hget
  · rw [hid, Option.some.injEq] at hid'
    rw [hget, Option.some.injEq] at hget'
    rw [hget', hid', heq]
    rfl

theorem sources_exact_iff (hv : g.Valid) (hrun : materialize_if_needed n g overrides = .ok m) :
    (∀ id document, (g.nodes.get? id).bind (Node.source_document str) = some document ↔
      Sourced str (all_nodes n m) id document) ↔
      (∀ id node ran, g.nodes.get? id = some node → m.nodes.get? id = some ran →
        ran.is_source = true → node.snapshot.dumped str = ran.snapshot.dumped str) ∧
      ∀ ran ∈ inner_nodes n m, ran.is_source = true →
        ∃ node, g.nodes.get? ran.id = some node ∧ node.is_source = true ∧
          node.snapshot.dumped str = ran.snapshot.dumped str := by
  refine (recorded_exact_iff _ _ hv hrun).trans ?_
  simp only [Node.source_document_eq_some]
  constructor
  · rintro ⟨hown, -, hnested⟩
    exact ⟨fun id node ran hid hget hsource => (hown id node ran _ hid hget ⟨hsource, rfl⟩).2,
      fun ran hinner hsource => hnested ran hinner _ ⟨hsource, rfl⟩⟩
  · rintro ⟨hown, hnested⟩
    refine ⟨?_, ?_, ?_⟩
    · rintro id node ran document hid hget ⟨hsource, rfl⟩
      have hsource' : ran.is_source = true := hsource
      exact ⟨is_source_of_materialize hrun hid hget ▸ hsource', hown id node ran hid hget hsource'⟩
    · rintro id node document hid ⟨hsource, rfl⟩
      rcases materialize_nodes hrun id with ⟨-, hnone⟩ | ⟨node', ran, hid', hget, -⟩
      · rw [hnone] at hid
        cases hid
      · have hsource' : ran.is_source = true :=
          (is_source_of_materialize hrun hid hget).trans hsource
        exact ⟨ran.shell, mem_all_nodes.mpr (.inl ⟨id, ran, hget, rfl⟩),
          (hv.materialize hrun).node_id hget, hsource', (hown id node ran hid hget hsource').symm⟩
    · rintro ran hinner document ⟨hsource, rfl⟩
      exact hnested ran hinner hsource

end Exact

/-! ## Equal documents -/

theorem ParamValue.canonicalMembers_eq_map (ref : String → Option String → ParamValue)
    (members : List (String × ParamValue)) : ParamValue.canonicalMembers ref members =
      members.map fun e => (e.1, e.2.canonical ref) := by
  induction members with
  | nil => rfl
  | cons e members ih =>
      rw [ParamValue.canonicalMembers, ih]
      rfl

/-- Mappings with one document have, under each key, values with one document. -/
theorem ParamValue.get?_of_dumped_eq {str : String → Option String → String}
    {d d' : Dict String ParamValue}
    (h : (ParamValue.mapping d.entries).dumped str = (ParamValue.mapping d'.entries).dumped str)
    (k : String) : (d.get? k).map (·.dumped str) = (d'.get? k).map (·.dumped str) := by
  simp only [ParamValue.dumped, ParamValue.canonical, ParamValue.canonicalMembers_eq_map,
    ParamValue.mapping.injEq] at h
  have hmem : ∀ v, (d.mapValues fun _ v => v.dumped str).get? k = some v ↔
      (d'.mapValues fun _ v => v.dumped str).get? k = some v := by
    intro v
    rw [← Dict.mem_entries_iff, ← Dict.mem_entries_iff]
    have hsorted := iff_of_eq (congrArg ((k, v) ∈ ·) h)
    simp only [List.mem_insertionSort] at hsorted
    exact hsorted
  have hget := Option.ext hmem
  rwa [Dict.get?_mapValues, Dict.get?_mapValues] at hget

/-- Data sources with one document have one type and the same parameters. -/
theorem Node.of_document_eq {str : String → Option String → String} {node node' : Node Empty}
    (h : node.snapshot.dumped str = node'.snapshot.dumped str) : node.type = node'.type ∧
      ∀ name, (node.param_values.get? name).map (·.dumped str) =
        (node'.param_values.get? name).map (·.dumped str) := by
  have hsorted : ∀ node : Node Empty, node.snapshot.dumped str = .mapping
      [("params", (ParamValue.mapping node.param_values.entries).dumped str),
        ("type", .str node.type)] := by
    intro node
    have hle : ¬ "type" ≤ "params" := by decide
    simp only [Node.snapshot, ParamValue.dumped, ParamValue.canonical,
      ParamValue.canonicalMembers, List.insertionSort_cons, List.insertionSort_nil,
      List.orderedInsert_cons, List.orderedInsert_nil, hle, if_false]
  rw [hsorted, hsorted] at h
  simp only [ParamValue.mapping.injEq, List.cons.injEq, Prod.mk.injEq, ParamValue.str.injEq,
    true_and, and_true] at h
  exact ⟨h.2, ParamValue.get?_of_dumped_eq h.1⟩

/-! ## The law -/

section Law

variable {digest : ParamValue → Hash} {str : String → Option String → String} {n : Nat}
  {g m : Graph (Nested n)} {overrides : Option (Dict String ParamValue)}

theorem content_hashes_eq_some {dependency_versions : Option (Dict String String)}
    {params : Option (Dict String ParamValue)} {id : String} {h : Hash} :
    (capture_run digest str g dependency_versions params).content_hashes.get? id = some h ↔
      ∃ document, (g.nodes.get? id).bind (Node.source_document str) = some document ∧
        digest document = h := by
  rw [get?_content_hashes]
  cases g.nodes.get? id with
  | none => simp
  | some node =>
      cases hsource : node.is_source with
      | false => simp [Option.filter, Node.source_document, hsource]
      | true => simp [Option.filter, Node.source_document, hsource, content_hash]

/-- What is captured of a run is exact just when it is what is stored outermost. -/
theorem capture_exact_iff (hdigest : Function.Injective digest) (hv : g.Valid)
    (hrun : materialize_if_needed n g overrides = .ok m)
    (dependency_versions : Option (Dict String String)) (params : Option (Dict String ParamValue)) :
    CaptureExact digest str (capture_run digest str g dependency_versions params)
      (all_nodes n m) ↔ StoredAsRun str n g m := by
  have hhashes : (∀ id h, (capture_run digest str g dependency_versions params).content_hashes.get?
        id = some h ↔ ∃ document, Sourced str (all_nodes n m) id document ∧ digest document = h) ↔
      ∀ id document, (g.nodes.get? id).bind (Node.source_document str) = some document ↔
        Sourced str (all_nodes n m) id document := by
    simp only [content_hashes_eq_some]
    constructor
    · intro h id document
      have hone := h id (digest document)
      simpa only [hdigest.eq_iff, exists_eq_right] using hone
    · intro h id hash
      simp only [h]
  have hseeds := recorded_exact_iff Node.stored_seed Node.Carries hv hrun
  constructor
  · rintro ⟨hexact, hhash⟩
    simp only [get?_seeds] at hexact
    obtain ⟨hown, hused, hnested⟩ := hseeds.mp hexact
    obtain ⟨hown_source, hnested_source⟩ := (sources_exact_iff hv hrun).mp (hhashes.mp hhash)
    exact ⟨hown, hused, hnested, hown_source, hnested_source⟩
  · intro h
    refine ⟨?_, hhashes.mpr ((sources_exact_iff hv hrun).mpr ⟨h.own_source, h.nested_source⟩)⟩
    simp only [get?_seeds]
    exact hseeds.mpr ⟨h.own, h.used, h.nested⟩

end Law

/-- A run of a valid graph, with the flow parameters it was given. -/
structure FlowRun where
  depth : Nat
  graph : Graph (Nested depth)
  overrides : Option (Dict String ParamValue)
  executed : Graph (Nested depth)
  valid : graph.Valid
  materialized : materialize_if_needed depth graph overrides = .ok executed

/-- The nodes the run executed, at every depth. -/
def FlowRun.nodes (r : FlowRun) : List (Node Empty) := all_nodes r.depth r.executed

def FlowRun.StoredAsRun (r : FlowRun) (str : String → Option String → String) : Prop :=
  EmergentFlow.StoredAsRun str r.depth r.graph r.executed

/-- The capture of a run, of the graph as it is stored. -/
def FlowRun.capture (r : FlowRun) (digest : ParamValue → Hash)
    (str : String → Option String → String) (dependency_versions : Option (Dict String String)) :
    ReproducibilityCapture Hash :=
  capture_run digest str r.graph dependency_versions
    (some (r.graph.params.mapValues fun name param =>
      (r.overrides.bind (·.get? name)).getD param.value))

/-- The two lists hold the same nodes, wherever these are placed. -/
def SameNodes (nodes nodes' : List (Node Empty)) : Prop := ∀ id type params,
  (∃ node ∈ nodes, node.id = id ∧ node.type = type ∧ node.params = params) ↔
    ∃ node ∈ nodes', node.id = id ∧ node.type = type ∧ node.params = params

def SameCaptured (c c' : ReproducibilityCapture Hash) : Prop :=
  c.seeds.get? = c'.seeds.get? ∧ c.content_hashes.get? = c'.content_hashes.get?

/-- The same seeds everywhere, and data sources with the same parameters. -/
structure UsedTheSame (str : String → Option String → String)
    (nodes nodes' : List (Node Empty)) : Prop where
  seeds : ∀ id v, Seeded nodes id v ↔ Seeded nodes' id v
  sources : ∀ node ∈ nodes, node.is_source = true → ∃ node' ∈ nodes', node'.id = node.id ∧
    node.type = node'.type ∧ ∀ name, (node.param_values.get? name).map (·.dumped str) =
      (node'.param_values.get? name).map (·.dumped str)

section Consequences

variable {digest : ParamValue → Hash} {str : String → Option String → String}
  {c c' : ReproducibilityCapture Hash} {nodes nodes' : List (Node Empty)}

/-- What holds of a node by its id, type and params holds of the same nodes. -/
theorem SameNodes.exists_iff (h : SameNodes nodes nodes') {id : String} {P : Node Empty → Prop}
    (hP : ∀ node node' : Node Empty, node.type = node'.type → node.params = node'.params →
      (P node ↔ P node')) :
    (∃ node ∈ nodes, node.id = id ∧ P node) ↔ ∃ node ∈ nodes', node.id = id ∧ P node := by
  constructor
  · rintro ⟨node, hmem, hid, hnode⟩
    obtain ⟨node', hmem', hid', htype, hparams⟩ := (h _ _ _).mp ⟨node, hmem, hid, rfl, rfl⟩
    exact ⟨node', hmem', hid', (hP _ _ htype hparams).mpr hnode⟩
  · rintro ⟨node, hmem, hid, hnode⟩
    obtain ⟨node', hmem', hid', htype, hparams⟩ := (h _ _ _).mpr ⟨node, hmem, hid, rfl, rfl⟩
    exact ⟨node', hmem', hid', (hP _ _ htype hparams).mpr hnode⟩

/-- Exact captures of the same nodes record the same. -/
theorem CaptureExact.sameCaptured (hc : CaptureExact digest str c nodes)
    (hc' : CaptureExact digest str c' nodes') (h : SameNodes nodes nodes') :
    SameCaptured c c' := by
  have hseeded : ∀ id v, Seeded nodes id v ↔ Seeded nodes' id v := fun id v =>
    h.exists_iff fun _ _ _ hparams => by rw [Node.Carries, Node.Carries, hparams]
  have hsourced : ∀ id document, Sourced str nodes id document ↔ Sourced str nodes' id document :=
    fun id document => h.exists_iff fun _ _ htype hparams => by
      rw [Node.is_source, Node.is_source, Node.snapshot, Node.snapshot, Node.param_values,
        Node.param_values, htype, hparams]
  constructor
  · funext id
    exact Option.ext fun v => (hc.seeds id v).trans ((hseeded id v).trans (hc'.seeds id v).symm)
  · funext id
    refine Option.ext fun v => (hc.content_hashes id v).trans ?_
    simp only [hsourced]
    exact (hc'.content_hashes id v).symm

/-- Runs whose exact captures record the same used the same. -/
theorem CaptureExact.usedTheSame (hdigest : Function.Injective digest)
    (hc : CaptureExact digest str c nodes) (hc' : CaptureExact digest str c' nodes')
    (h : SameCaptured c c') : UsedTheSame str nodes nodes' := by
  constructor
  · intro id v
    rw [← hc.seeds, ← hc'.seeds, h.1]
  · intro node hmem hsource
    have hhash := (hc.content_hashes node.id _).mpr ⟨_, ⟨node, hmem, rfl, hsource, rfl⟩, rfl⟩
    rw [h.2] at hhash
    obtain ⟨document, ⟨node', hmem', hid, -, hdocument⟩, heq⟩ :=
      (hc'.content_hashes node.id _).mp hhash
    have hsame : node.snapshot.dumped str = node'.snapshot.dumped str :=
      (hdocument.trans (hdigest heq)).symm
    exact ⟨node', hmem', hid, Node.of_document_eq hsame⟩

end Consequences

/-- When a capture is exact, and what exact captures are good for. -/
structure ReproducibilityLaw (digest : ParamValue → Hash) (str : String → Option String → String)
    (dependency_versions : Option (Dict String String)) : Prop where
  exact : ∀ r : FlowRun,
    CaptureExact digest str (r.capture digest str dependency_versions) r.nodes ↔ r.StoredAsRun str
  moved : ∀ r r' : FlowRun, r.StoredAsRun str → r'.StoredAsRun str → SameNodes r.nodes r'.nodes →
    SameCaptured (r.capture digest str dependency_versions)
      (r'.capture digest str dependency_versions)
  repeated : ∀ r r' : FlowRun, r.StoredAsRun str → r'.StoredAsRun str →
    SameCaptured (r.capture digest str dependency_versions)
      (r'.capture digest str dependency_versions) → UsedTheSame str r.nodes r'.nodes

theorem reproducibility_law {digest : ParamValue → Hash} (hdigest : Function.Injective digest)
    (str : String → Option String → String) (dependency_versions : Option (Dict String String)) :
    ReproducibilityLaw digest str dependency_versions := by
  have hexact : ∀ r : FlowRun,
      CaptureExact digest str (r.capture digest str dependency_versions) r.nodes ↔
        r.StoredAsRun str := fun r => capture_exact_iff hdigest r.valid r.materialized _ _
  constructor
  · exact hexact
  · exact fun r r' h h' hsame => ((hexact r).mpr h).sameCaptured ((hexact r').mpr h') hsame
  · exact fun r r' h h' hsame => ((hexact r).mpr h).usedTheSame hdigest ((hexact r').mpr h') hsame

/-! ## A seed in a composite -/

def seeded_node (seed : Int) : Node Sub where
  id := "b"
  type := "ml.train_test_split"
  params := [{ name := "random_state", type_token := "int", value := .int seed }]

/-- One stochastic node, in the outermost graph. -/
def plain_run (seed : Int) : FlowRun where
  depth := 0
  graph := { nodes := Dict.empty.set "b" (seeded_node seed) }
  overrides := none
  executed := { nodes := Dict.empty.set "b" (seeded_node seed) }
  valid := Graph.validate_structure_eq_ok.mp rfl
  materialized := rfl

def composite_graph (seed : Int) (inside : Bool) : Graph (Nested 1) :=
  let inner : Graph Empty :=
    if inside then { nodes := Dict.empty.set "b" (seeded_node seed) } else {}
  let outer : Dict String (Node (Graph Empty)) :=
    Dict.empty.set "a" { id := "a", type := "layout.composite", subgraph := some inner }
  { nodes := if inside then outer else outer.set "b" (seeded_node seed) }

/-- A composite, and a stochastic node in it or beside it. -/
def composite_run (seed : Int) (inside : Bool) : FlowRun where
  depth := 1
  graph := composite_graph seed inside
  overrides := none
  executed := composite_graph seed inside
  valid := by cases inside <;> exact Graph.validate_structure_eq_ok.mp rfl
  materialized := by cases inside <;> rfl

theorem carries_seeded_node (seed : Int) :
    (seeded_node seed : Node Sub).Carries (.int seed) :=
  ⟨nofun, _, .head _, .tail _ (.head _), rfl⟩

/-- A seed in a composite is not recorded, moving its node out changes that, and
two runs with different ones have one capture; though the hash is injective. -/
theorem nested_seed_escapes_capture :
    (¬ ∀ (str : String → Option String → String) (r : FlowRun),
      CaptureExact id str (r.capture id str none) r.nodes) ∧
    (¬ ∀ (str : String → Option String → String) (r r' : FlowRun), SameNodes r.nodes r'.nodes →
      SameCaptured (r.capture id str none) (r'.capture id str none)) ∧
    ¬ ∀ (str : String → Option String → String) (r r' : FlowRun),
      SameCaptured (r.capture id str none) (r'.capture id str none) →
        UsedTheSame str r.nodes r'.nodes := by
  have hcarried : ∀ seed : Int, Seeded (composite_run seed true).nodes "b" (.int seed) :=
    fun seed => ⟨seeded_node seed, .tail _ (.head _), rfl, carries_seeded_node seed⟩
  refine ⟨fun h => ?_, fun h => ?_, fun h => ?_⟩
  · have hrecorded := ((h (fun uri _ => uri) (composite_run 7 true)).seeds "b" _).mpr (hcarried 7)
    cases hrecorded
  · have hsame := (h (fun uri _ => uri) (composite_run 7 true) (composite_run 7 false)
      fun _ _ _ => Iff.rfl).1
    cases congrFun hsame "b"
  · obtain ⟨node, hmem, hid, hcarries⟩ := ((h (fun uri _ => uri) (composite_run 7 true)
      (composite_run 8 true) ⟨rfl, rfl⟩).seeds "b" (.int 7)).mp (hcarried 7)
    obtain ⟨-, p, hp, -, hvalue⟩ := hcarries
    have hnodes : (composite_run 8 true).nodes =
        [{ id := "a", type := "layout.composite" }, seeded_node 8] := rfl
    rw [hnodes] at hmem
    rcases List.mem_pair.mp hmem with rfl | rfl
    · cases hp
    · cases List.mem_singleton.mp hp
      cases hvalue

/-- The seed of an outermost node is recorded, and that of a nested one is not. -/
theorem reproducibility_law_seven :
    CaptureExact id (fun uri _ => uri) ((plain_run 7).capture id (fun uri _ => uri) none)
      (plain_run 7).nodes ∧
    ¬ CaptureExact id (fun uri _ => uri) ((composite_run 7 true).capture id (fun uri _ => uri) none)
      (composite_run 7 true).nodes := by
  have hlaw : ReproducibilityLaw (id : ParamValue → ParamValue) (fun uri _ => uri) none :=
    reproducibility_law Function.injective_id _ none
  have hget : ∀ {key : String} {node : Node Empty},
      (plain_run 7).graph.nodes.get? key = some node → key = "b" ∧ node = seeded_node 7 := by
    intro key node h
    by_cases hkey : key = "b"
    · subst hkey
      exact ⟨rfl, (Option.some.inj h).symm⟩
    · have hnone : (plain_run 7).graph.nodes.get? key = none := Dict.get?_set_ne _ _ (Ne.symm hkey)
      rw [hnone] at h
      cases h
  constructor
  · refine (hlaw.exact (plain_run 7)).mpr ⟨?_, ?_, nofun, ?_, nofun⟩
    · intro id node ran v hid hran hcarries
      obtain ⟨rfl, rfl⟩ := hget hran
      obtain ⟨-, rfl⟩ := hget hid
      obtain ⟨-, p, hp, -, rfl⟩ := hcarries
      cases List.mem_singleton.mp hp
      rfl
    · intro id node v hid hseed
      obtain ⟨rfl, rfl⟩ := hget hid
      cases hseed
      exact ⟨seeded_node 7, .head _, rfl, carries_seeded_node 7⟩
    · intro id node ran hid hran hsource
      obtain ⟨-, rfl⟩ := hget hran
      cases hsource
  · intro hexact
    obtain ⟨node, hid, -⟩ := ((hlaw.exact (composite_run 7 true)).mp hexact).nested
      (seeded_node 7) (.head _) (.int 7) (carries_seeded_node 7)
    cases hid

end EmergentFlow
