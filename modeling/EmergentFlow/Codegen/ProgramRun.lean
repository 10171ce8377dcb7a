import EmergentFlow.Codegen.ProgramCall

/-!
# Codegen — ProgramRun

A graph, walked by the executor and run as the body of a function: node by node the
variables hold the results. The composites of the graph are assumed to agree; the
induction over the depth of nesting supplies them.
-/

namespace EmergentFlow.Program

open Naming Scopes Together

variable {Sub V C ε : Type}

/-! ## Fragments -/

/-- What the fragment of a node says about the variables of its OUT ports. -/
structure Stage.Writes (st : Stage V Sub) (l : Language V C ε) (node : Node Sub)
    (fragment : Fragment V) : Prop where
  outs : fragment.outs =
    node.out_ports.map fun port => (⟨node.id, port.id⟩, out_name st.name_map node port)
  assigned : ∀ name, name ∈ fragment.code.assigned →
    name = fn_name l.nfkd node ∨ name ∈ node.out_ports.map (out_name st.name_map node)
  assigns : ∀ name ∈ node.out_ports.map (out_name st.name_map node), name ∈ fragment.code.assigned

/-- The assembler writes the programs of the language, and the executor runs them. -/
structure Stage.Pair (st : Stage V Sub) (l : Language V C ε)
    (a : Assembler Sub (Fragment V) BindingError) (x : Executor Sub V C ε) : Prop where
  registry : a.registry = l.runtime.registry
  codegen : a.codegen = l.codegen
  context : ∀ node, a.context st.graph st.wiring st.kwargs node =
    build_codegen_context node st.name_map st.wiring l.runtime.registry
  runtime : x.runtime = l.runtime
  call : x.call = l.behaviour
  clients : x.clients = l.clients

/-- A composite of the graph runs as its fragment does. -/
structure Stage.Composite (st : Stage V Sub) (l : Language V C ε) (f : Node Sub → Node Sub)
    (a : Assembler Sub (Fragment V) BindingError) (x : Executor Sub V C ε) (node : Node Sub)
    (ctx : CodegenContext) : Prop where
  writes : ∀ {fragment}, a.composite node ctx st.kwargs = .ok fragment → st.Writes l node fragment
  agrees : ∀ {outer results frame}, st.Holds l outer results frame →
    Option.Rel (Assigned l st.name_map node frame)
      ((bind_inputs l.runtime (st.graph.map_nodes f) st.wiring st.seeds results
        (f node)).toOption.bind fun inputs => (x.composite (f node) inputs).toOption)
      ((a.composite node ctx st.kwargs).toOption.bind fun fragment =>
        l.machine.run outer fragment.code frame)

section Walk

variable {l : Language V C ε} {st : Stage V Sub} {f : Node Sub → Node Sub}
  {a : Assembler Sub (Fragment V) BindingError} {x : Executor Sub V C ε}
  {outer : List (Frame V)} {results : Results V} {frame : Frame V} {id : String}
  {node : Node Sub} {ctx : CodegenContext}

theorem out_bindings_eq (name_map : List OutBinding) (node : Node Sub) :
    out_bindings node (node.out_ports.map (out_name name_map node)) =
      node.out_ports.map fun port => (⟨node.id, port.id⟩, out_name name_map node port) := by
  rw [out_bindings, List.zip_map']

theorem Stage.Reads.codegen_writes (hreads : st.Reads l f node ctx) (hfits : st.Fits l)
    (hnode : st.graph.nodes.get? id = some node) {fragment : Fragment V}
    (h : l.codegen node ctx = .ok fragment) : st.Writes l node fragment := by
  rw [Language.codegen, hreads.out_vars hfits hnode] at h
  cases h
  exact ⟨out_bindings_eq _ _, fun name hname => .inr hname, fun name hname => hname⟩

/-- The fragment of a node, emitted in its context. -/
theorem Stage.Pair.emit (hp : st.Pair l a x) (hfits : st.Fits l) (hf : KeepsFrame f)
    (hnode : st.graph.nodes.get? id = some node) :
    ∃ ctx, st.Reads l f node ctx ∧
      (a.emit st.graph st.wiring st.overrides st.kwargs id).toOption =
        (a.fragment node ctx st.kwargs).toOption := by
  obtain ⟨ctx, refs, hctx, hrefs, hreads⟩ := hfits.context hf hnode
  refine ⟨_, hreads, ?_⟩
  rw [Assembler.emit, hnode, Checks.require_some]
  show ((a.context st.graph st.wiring st.kwargs node).mapError AssemblyFailure.raised >>= _
    ).toOption = _
  rw [hp.context, hctx, hrefs]
  rfl

theorem Stage.Pair.emit_writes (hp : st.Pair l a x) (hfits : st.Fits l) (hf : KeepsFrame f)
    (hcomposite : ∀ {id node ctx}, st.graph.nodes.get? id = some node →
      node.type = COMPOSITE_NODE_TYPE → st.Reads l f node ctx → st.Composite l f a x node ctx)
    (hnode : st.graph.nodes.get? id = some node) {fragment : Fragment V}
    (h : (a.emit st.graph st.wiring st.overrides st.kwargs id).toOption = some fragment) :
    st.Writes l node fragment := by
  obtain ⟨ctx, hreads, heq⟩ := hp.emit hfits hf hnode
  rw [heq, toOption_eq_some, Assembler.fragment] at h
  split at h
  · rename_i htype
    exact (hcomposite hnode htype hreads).writes h
  · obtain ⟨d, -, h⟩ := Checks.bind_eq_ok.mp h
    rw [Checks.mapError_eq_ok, hp.codegen] at h
    exact hreads.codegen_writes hfits hnode h

/-- One node, visited and run. -/
theorem Stage.Pair.visit (hp : st.Pair l a x) (hfits : st.Fits l) (hb : Bakes st.resolved f)
    (hcomposite : ∀ {id node ctx}, st.graph.nodes.get? id = some node →
      node.type = COMPOSITE_NODE_TYPE → st.Reads l f node ctx → st.Composite l f a x node ctx)
    (hnode : st.graph.nodes.get? id = some node) (h : st.Holds l outer results frame) :
    Option.Rel (Assigned l st.name_map node frame)
      (x.visit (st.graph.map_nodes f) st.wiring st.seeds results id).toOption
      ((a.emit st.graph st.wiring st.overrides st.kwargs id).toOption.bind fun fragment =>
        l.machine.run outer fragment.code frame) := by
  obtain ⟨ctx, hreads, hemit⟩ := hp.emit hfits hb.frame hnode
  have hvisit : (x.visit (st.graph.map_nodes f) st.wiring st.seeds results id).toOption =
      (bind_inputs l.runtime (st.graph.map_nodes f) st.wiring st.seeds results
        (f node)).toOption.bind fun inputs => (x.run_node (f node) inputs).toOption := by
    rw [Executor.visit, Graph.get?_map_nodes, hnode, hp.runtime, toOption_bind, toOption_require]
    show ((_ >>= _ : Except _ _)).toOption = _
    rw [toOption_bind, toOption_mapError]
  rw [hvisit, hemit, Assembler.fragment]
  simp only [Executor.run_node, hb.frame.type]
  by_cases htype : node.type = COMPOSITE_NODE_TYPE
  · simp only [if_pos htype]
    exact (hcomposite hnode htype hreads).agrees h
  · simp only [if_neg htype, hp.registry, hp.runtime, hp.call, hp.clients, hp.codegen]
    cases hd : l.runtime.registry node.type with
    | none =>
        show Option.Rel _ (Option.bind _ fun _ => none) none
        rw [Option.bind_fun_none]
        exact .none
    | some d =>
        have hcall := hreads.call hfits hb hnode h hd htype
        rw [← toOption_mapError (l.codegen node ctx) AssemblyFailure.raised] at hcall
        exact hcall

/-- All nodes in order. -/
theorem Stage.Pair.walk (hp : st.Pair l a x) (hfits : st.Fits l) (hb : Bakes st.resolved f)
    (hcomposite : ∀ {id node ctx}, st.graph.nodes.get? id = some node →
      node.type = COMPOSITE_NODE_TYPE → st.Reads l f node ctx → st.Composite l f a x node ctx)
    (order : List String) (h : st.Holds l outer results frame) :
    Option.Rel (st.Holds l outer)
      (x.walk (st.graph.map_nodes f) st.wiring st.seeds order results).toOption
      (order.foldlM (fun frame id =>
        (a.emit st.graph st.wiring st.overrides st.kwargs id).toOption.bind fun fragment =>
          l.machine.run outer fragment.code frame) frame) := by
  rw [Executor.walk, toOption_foldlM]
  refine foldlM h fun results frame id _ h => ?_
  rw [toOption_bind, toOption_mapError]
  cases hnode : st.graph.nodes.get? id with
  | none =>
      have hvisit : (x.visit (st.graph.map_nodes f) st.wiring st.seeds results id
          ).toOption = none := by
        rw [Executor.visit, Graph.get?_map_nodes, hnode]
        rfl
      have hemit : (a.emit st.graph st.wiring st.overrides st.kwargs id).toOption = none := by
        rw [Assembler.emit, hnode]
        rfl
      rw [hvisit, hemit]
      exact .none
  | some node =>
      have hnext := bind (hp.visit hfits hb hcomposite hnode h) (g := some)
        (f := fun outputs => some (results.set id outputs)) (Q := st.Holds l outer)
        fun outputs frame' _ _ hassigned => .some (h.next hfits hnode hassigned)
      rw [Option.bind_fun_some] at hnext
      exact hnext

end Walk

/-! ## The body of a function -/

/-- The names that a function of the graph may assign, the variables of all its OUT
ports among them. -/
structure Stage.Covers (st : Stage V Sub) (l : Language V C ε) (assigned : List String) : Prop where
  owned : ∀ name ∈ assigned, Owned l.nfkd st.graph st.name_map name
  all : ∀ {ref name}, var_for st.name_map ref = some name → name ∈ assigned

/-- A call of the function of the graph begins with everything it reads. -/
def Stage.Starts (st : Stage V Sub) (l : Language V C ε) (outer : List (Frame V))
    (start : List String → Option (Frame V)) : Prop :=
  ∀ assigned, st.Covers l assigned →
    ∃ frame, start assigned = some frame ∧ st.Holds l outer Dict.empty frame

/-- The body of the function of a graph. -/
def body (fragments : List (Fragment V)) : Command NodeCall Arg V := .all (fragments.map (·.code))

section Body

variable {l : Language V C ε} {st : Stage V Sub} {f : Node Sub → Node Sub}
  {a : Assembler Sub (Fragment V) BindingError} {x : Executor Sub V C ε}
  {outer : List (Frame V)} {order : List String} {fragments : List (Fragment V)}
  {start : List String → Option (Frame V)}

theorem Stage.Fits.covers_all (hfits : st.Fits l) :
    st.Covers l (st.graph.nodes.values.flatMap fun node =>
      node.out_ports.map (out_name st.name_map node)) := by
  obtain ⟨reserved, hnamed⟩ := hfits.named
  constructor
  · intro name hname
    obtain ⟨node, hnode, hname⟩ := List.mem_flatMap.mp hname
    obtain ⟨id, hnode⟩ := (Dict.mem_values_iff _).mp hnode
    obtain ⟨port, hport, rfl⟩ := List.mem_map.mp hname
    exact .inl ⟨_, hfits.var_for_out hnode hport⟩
  · intro ref name hname
    obtain ⟨id, node, hnode, port, hport, rfl⟩ := hnamed.port hname
    rw [hfits.var_for_out hnode hport, Option.some.injEq] at hname
    exact List.mem_flatMap.mpr ⟨node, (Dict.mem_values_iff _).mpr ⟨id, hnode⟩,
      List.mem_map.mpr ⟨port, hport, hname⟩⟩

section Emitted

variable (hp : st.Pair l a x) (hfits : st.Fits l) (hf : KeepsFrame f)
  (hcomposite : ∀ {id node ctx}, st.graph.nodes.get? id = some node →
    node.type = COMPOSITE_NODE_TYPE → st.Reads l f node ctx → st.Composite l f a x node ctx)
  (horder : ∀ {id node}, st.graph.nodes.get? id = some node → id ∈ order)
  (hemitted : (order.mapM fun id =>
    (a.emit st.graph st.wiring st.overrides st.kwargs id).toOption) = some fragments)

include hp hfits hf hcomposite hemitted

/-- Each fragment is that of a node. -/
theorem Stage.Pair.writes_of_mem {fragment : Fragment V} (h : fragment ∈ fragments) :
    ∃ id node, st.graph.nodes.get? id = some node ∧ st.Writes l node fragment := by
  obtain ⟨id, -, hemit⟩ := mem_right_of_mapM hemitted h
  cases hnode : st.graph.nodes.get? id with
  | none =>
      rw [Assembler.emit, hnode] at hemit
      cases hemit
  | some node => exact ⟨id, node, hnode, hp.emit_writes hfits hf hcomposite hnode hemit⟩

include horder

/-- Each node has a fragment. -/
theorem Stage.Pair.exists_writes {id : String} {node : Node Sub}
    (hnode : st.graph.nodes.get? id = some node) :
    ∃ fragment ∈ fragments, st.Writes l node fragment := by
  obtain ⟨fragment, hmem, hemit⟩ := mem_left_of_mapM hemitted (horder hnode)
  exact ⟨fragment, hmem, hp.emit_writes hfits hf hcomposite hnode hemit⟩

theorem Stage.Pair.covers : st.Covers l (body fragments).assigned := by
  obtain ⟨reserved, hnamed⟩ := hfits.named
  rw [body, Command.assigned_all, List.flatMap_map]
  constructor
  · intro name hname
    obtain ⟨fragment, hfragment, hname⟩ := List.mem_flatMap.mp hname
    obtain ⟨id, node, hnode, hwrites⟩ := hp.writes_of_mem hfits hf hcomposite hemitted hfragment
    rcases hwrites.assigned name hname with rfl | hmem
    · exact .inr ⟨id, node, hnode, rfl⟩
    · obtain ⟨port, hport, rfl⟩ := List.mem_map.mp hmem
      exact .inl ⟨_, hfits.var_for_out hnode hport⟩
  · intro ref name hname
    obtain ⟨id, node, hnode, port, hport, rfl⟩ := hnamed.port hname
    rw [hfits.var_for_out hnode hport, Option.some.injEq] at hname
    obtain ⟨fragment, hfragment, hwrites⟩ :=
      hp.exists_writes hfits hf hcomposite horder hemitted hnode
    exact List.mem_flatMap.mpr ⟨fragment, hfragment,
      hwrites.assigns _ (List.mem_map.mpr ⟨port, hport, hname⟩)⟩

/-- The fragments know the variable of every OUT port. -/
theorem Stage.Pair.lookup_outs {id : String} {node : Node Sub}
    (hnode : st.graph.nodes.get? id = some node) {port : Port} (hport : port ∈ node.out_ports) :
    (fragments.flatMap (·.outs)).lookup ⟨node.id, port.id⟩ =
      some (out_name st.name_map node port) := by
  obtain ⟨fragment, hfragment, hwrites⟩ :=
    hp.exists_writes hfits hf hcomposite horder hemitted hnode
  have hthere : (⟨node.id, port.id⟩, out_name st.name_map node port) ∈ fragments.flatMap (·.outs) :=
    List.mem_flatMap.mpr ⟨fragment, hfragment,
      hwrites.outs ▸ List.mem_map.mpr ⟨port, hport, rfl⟩⟩
  -- whatever fragment lists the port, it has the variable of the name map
  have hall : ∀ e ∈ fragments.flatMap (·.outs), var_for st.name_map e.1 = some e.2 := by
    intro e he
    obtain ⟨fragment', hfragment', he⟩ := List.mem_flatMap.mp he
    obtain ⟨id', node', hnode', hwrites'⟩ :=
      hp.writes_of_mem hfits hf hcomposite hemitted hfragment'
    rw [hwrites'.outs] at he
    obtain ⟨port', hport', rfl⟩ := List.mem_map.mp he
    exact hfits.var_for_out hnode' hport'
  cases hlookup : (fragments.flatMap (·.outs)).lookup ⟨node.id, port.id⟩ with
  | none =>
      rw [List.lookup_eq_none_iff] at hlookup
      simpa using hlookup _ hthere
  | some name =>
      have hmem := mem_of_lookup hlookup
      have hvar := hall _ hmem
      rw [hfits.var_for_out hnode hport] at hvar
      exact hvar.symm

end Emitted

/-- The walk over a graph, and the body of its function from its start. -/
theorem Stage.Pair.body (hp : st.Pair l a x) (hfits : st.Fits l) (hb : Bakes st.resolved f)
    (hcomposite : ∀ {id node ctx}, st.graph.nodes.get? id = some node →
      node.type = COMPOSITE_NODE_TYPE → st.Reads l f node ctx → st.Composite l f a x node ctx)
    (horder : ∀ {id node}, st.graph.nodes.get? id = some node → id ∈ order)
    (hstart : st.Starts l outer start) :
    Option.Rel (st.Holds l outer)
      (x.walk (st.graph.map_nodes f) st.wiring st.seeds order Dict.empty).toOption
      ((order.mapM fun id =>
        (a.emit st.graph st.wiring st.overrides st.kwargs id).toOption).bind fun fragments =>
          (start (Program.body fragments).assigned).bind
            (l.machine.run outer (Program.body fragments))) := by
  cases hemitted : order.mapM fun id =>
      (a.emit st.graph st.wiring st.overrides st.kwargs id).toOption with
  | none =>
      -- the walk meets a node whose fragment cannot be emitted
      obtain ⟨frame, -, hframe⟩ := hstart _ hfits.covers_all
      have hwalk := hp.walk hfits hb hcomposite order hframe
      rw [← mapM_foldlM, hemitted] at hwalk
      exact hwalk
  | some fragments =>
      obtain ⟨frame, hbegin, hframe⟩ :=
        hstart _ (hp.covers hfits hb.frame hcomposite horder hemitted)
      have hwalk := hp.walk hfits hb hcomposite order hframe
      rw [← mapM_foldlM, hemitted] at hwalk
      rw [Option.bind_some, hbegin, Option.bind_some, Program.body, Machine.run_all,
        List.foldlM_map]
      exact hwalk

end Body

/-! ## A graph -/

section Graph

variable {l : Language V C ε} {st : Stage V Sub} {f : Node Sub → Node Sub}
  {a : Assembler Sub (Fragment V) BindingError} {x : Executor Sub V C ε}
  {outer : List (Frame V)} {start : List String → Option (Frame V)}

/-- The params of the graph all have a keyword. -/
theorem param_defaults_eq (g : Graph Sub) {kwargs : Dict String String}
    (hparams : ∀ name ∈ g.params.keys, name ∈ kwargs.keys) :
    (g.params.keys.insertionSort (· ≤ ·)).mapM (g.param_default (ε := BindingError) kwargs) =
      .ok ((g.params.keys.insertionSort (· ≤ ·)).map fun name =>
        ((kwargs.get? name).getD "", ((g.params.get? name).map (·.value)).getD .none)) := by
  refine Checks.mapM_eq_map fun name hname => ?_
  obtain ⟨kwarg, hkwarg⟩ :=
    (Dict.mem_keys_iff _).mp (hparams name ((List.mem_insertionSort _).mp hname))
  rw [Graph.param_default, hkwarg]
  rfl

theorem Stage.Fits.order (hfits : st.Fits l) {order : List String}
    (h : topological_sort st.graph = .ok order) :
    ∀ {id node}, st.graph.nodes.get? id = some node → id ∈ order := by
  intro id node hnode
  exact (topological_sort_eq_ok hfits.sound.valid h).1.mem_iff.mpr
    ((Dict.mem_keys_iff _).mpr ⟨node, hnode⟩)

/-- Assembling a graph is emitting its nodes in order. -/
theorem Stage.Fits.assemble_eq (hfits : st.Fits l)
    (hparams : ∀ name ∈ st.graph.params.keys, name ∈ st.kwargs.keys) :
    (a.assemble st.graph st.overrides st.kwargs).toOption.map (·.fragments) =
      (a.prepare st.graph st.overrides).toOption.bind fun p => p.1.mapM fun id =>
        (a.emit st.graph st.wiring st.overrides st.kwargs id).toOption := by
  rw [Assembler.assemble, toOption_bind, toOption_mapError]
  cases hprepare : a.prepare st.graph st.overrides with
  | error e => rfl
  | ok p =>
      obtain ⟨order, w⟩ := p
      obtain rfl : w = st.wiring := by
        simp only [Assembler.prepare, Checks.bind_eq_ok] at hprepare
        obtain ⟨-, -, _, -, w', hw, -, -, hpure⟩ := hprepare
        cases hpure
        rw [hfits.wired, Except.ok.injEq] at hw
        exact hw.symm
      show (_ : Except _ _).toOption.map _ = order.mapM _
      rw [toOption_bind, foldlM_concat, param_defaults_eq _ hparams, ← toOption_mapM]
      cases order.mapM (a.emit st.graph st.wiring st.overrides st.kwargs) with
      | error e => rfl
      | ok fragments => rfl

/-- The nodes of an assembled graph were emitted in topological order. -/
theorem Stage.Fits.assembled (hfits : st.Fits l)
    (hparams : ∀ name ∈ st.graph.params.keys, name ∈ st.kwargs.keys)
    {m : AssembledModule (Fragment V)}
    (h : a.assemble st.graph st.overrides st.kwargs = .ok m) :
    ∃ order, topological_sort st.graph = .ok order ∧ (order.mapM fun id =>
      (a.emit st.graph st.wiring st.overrides st.kwargs id).toOption) = some m.fragments := by
  have hmap := hfits.assemble_eq (a := a) hparams
  rw [h] at hmap
  obtain ⟨p, hprepare, hemitted⟩ := Option.bind_eq_some_iff.mp hmap.symm
  rw [toOption_eq_some] at hprepare
  simp only [Assembler.prepare, Checks.bind_eq_ok] at hprepare
  obtain ⟨-, -, order, horder, w, -, -, -, hpure⟩ := hprepare
  cases hpure
  exact ⟨order, horder, hemitted⟩

theorem walk_contains {Sub : Type} {x : Executor Sub V C ε} {g : Graph Sub} {w : WiringMap}
    {seeds : Dict (String × String) V} {order : List String} {results results' : Results V}
    (h : x.walk g w seeds order results = .ok results') {id : String}
    (hid : id ∈ order ∨ (results.get? id).isSome) : (results'.get? id).isSome := by
  induction order generalizing results with
  | nil =>
      cases h
      exact hid.resolve_left List.not_mem_nil
  | cons first order ih =>
      rw [Executor.walk, List.foldlM_cons] at h
      obtain ⟨next, hnext, h⟩ := Checks.bind_eq_ok.mp h
      obtain ⟨outputs, -, hset⟩ := Checks.bind_eq_ok.mp hnext
      cases hset
      refine ih h ?_
      rw [Dict.get?_set, List.mem_cons] at *
      by_cases hfirst : first = id
      · exact .inr (by rw [if_pos hfirst]; rfl)
      · rw [if_neg hfirst]
        exact hid.imp_left fun h => h.resolve_left (Ne.symm hfirst)

/-- A graph runs as the body of its function does, whatever it starts from, and the
fragments know the variables of its OUT ports. -/
structure Stage.Agrees (st : Stage V Sub) (l : Language V C ε) (f : Node Sub → Node Sub)
    (a : Assembler Sub (Fragment V) BindingError) (x : Executor Sub V C ε) : Prop where
  runs : ∀ {outer start}, st.Starts l outer start →
    Option.Rel (fun results frame => st.Holds l outer results frame ∧
        ∀ id ∈ st.graph.nodes.keys, (results.get? id).isSome)
      (x.execute_functional (st.graph.map_nodes f) st.seeds).toOption
      ((a.assemble st.graph st.overrides st.kwargs).toOption.bind fun m =>
        (start (Program.body m.fragments).assigned).bind
          (l.machine.run outer (Program.body m.fragments)))
  outs : ∀ {m}, a.assemble st.graph st.overrides st.kwargs = .ok m →
    ∀ {id node}, st.graph.nodes.get? id = some node → ∀ port ∈ node.out_ports,
      (m.fragments.flatMap (·.outs)).lookup ⟨node.id, port.id⟩ =
        some (out_name st.name_map node port)

theorem Stage.Pair.runs (hp : st.Pair l a x) (hfits : st.Fits l) (hb : Bakes st.resolved f)
    (hcomposite : ∀ {id node ctx}, st.graph.nodes.get? id = some node →
      node.type = COMPOSITE_NODE_TYPE → st.Reads l f node ctx → st.Composite l f a x node ctx)
    (hparams : ∀ name ∈ st.graph.params.keys, name ∈ st.kwargs.keys)
    (hstart : st.Starts l outer start) :
    Option.Rel (fun results frame => st.Holds l outer results frame ∧
        ∀ id ∈ st.graph.nodes.keys, (results.get? id).isSome)
      (x.execute_functional (st.graph.map_nodes f) st.seeds).toOption
      ((a.assemble st.graph st.overrides st.kwargs).toOption.bind fun m =>
        (start (Program.body m.fragments).assigned).bind
          (l.machine.run outer (Program.body m.fragments))) := by
  obtain ⟨frame, -, hframe⟩ := hstart _ hfits.covers_all
  have hbound : ∀ key, st.overrides.contains key = st.seeds.contains key := fun key =>
    Bool.eq_iff_iff.mpr (isSome_iff (hframe.supplied key))
  have hassemble := hfits.assemble_eq (a := a) hparams
  have hprepare := prepare_agrees (a := a) (x := x) (g := st.graph) (f := f)
    (by rw [hp.registry, hp.runtime]) hb.frame hbound
  rw [Executor.execute_functional, hprepare, toOption_bind, toOption_mapError]
  have hrun : ((a.assemble st.graph st.overrides st.kwargs).toOption.bind fun m =>
        (start (Program.body m.fragments).assigned).bind
          (l.machine.run outer (Program.body m.fragments))) =
      ((a.assemble st.graph st.overrides st.kwargs).toOption.map (·.fragments)).bind
        fun fragments => (start (Program.body fragments).assigned).bind
          (l.machine.run outer (Program.body fragments)) := by
    rw [Option.bind_map]
    rfl
  rw [hrun, hassemble, Option.bind_assoc]
  refine bind_same fun p hp' => ?_
  rw [toOption_eq_some] at hp'
  simp only [Assembler.prepare, Checks.bind_eq_ok] at hp'
  obtain ⟨-, -, order, horder, w, hw, -, -, hpure⟩ := hp'
  cases hpure
  rw [hfits.wired, Except.ok.injEq] at hw
  subst hw
  refine mono (hp.body hfits hb hcomposite (hfits.order horder) hstart) ?_
  intro results frame hwalk _ hholds
  refine ⟨hholds, fun id hid => walk_contains (toOption_eq_some.mp hwalk) (.inl ?_)⟩
  exact (topological_sort_eq_ok hfits.sound.valid horder).1.mem_iff.mpr hid

/-- A graph whose composites agree. -/
theorem Stage.Pair.agrees (hp : st.Pair l a x) (hfits : st.Fits l) (hb : Bakes st.resolved f)
    (hcomposite : ∀ {id node ctx}, st.graph.nodes.get? id = some node →
      node.type = COMPOSITE_NODE_TYPE → st.Reads l f node ctx → st.Composite l f a x node ctx)
    (hparams : ∀ name ∈ st.graph.params.keys, name ∈ st.kwargs.keys) : st.Agrees l f a x := by
  constructor
  · exact hp.runs hfits hb hcomposite hparams
  · intro m hm id node hnode port hport
    obtain ⟨order, horder, hemitted⟩ := hfits.assembled hparams hm
    exact hp.lookup_outs hfits hb.frame hcomposite (hfits.order horder) hemitted hnode hport

end Graph

end EmergentFlow.Program
