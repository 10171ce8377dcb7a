import EmergentFlow.Codegen.ProgramRun

/-!
# Codegen — ProgramComposite

A composite, run by the executor on its subgraph and by the program as a nested
function: the parameters of the function stand for the seeds of the run, and what
it returns are the outputs.
-/

namespace EmergentFlow.Program

open Naming Scopes Together

variable {Sub V C ε : Type}

/-! ## The boundary -/

section Boundary

variable {l : Language V C ε} {g : Graph Sub} {f : Node Sub → Node Sub} {b : CompositeBoundary}
  {ref : PortRef}

theorem boundary_wiring (h : resolve_composite_boundary g = .ok b) :
    build_wiring_map g = .ok b.wiring := by
  obtain ⟨w, hw, hpure⟩ := Checks.bind_eq_ok.mp h
  cases hpure
  exact hw

theorem mem_sorted_ports {p : PortRef × Port} : p ∈ g.sorted_ports ↔
    ∃ id node, g.nodes.get? id = some node ∧
      ∃ port ∈ node.ports, p = (⟨node.id, port.id⟩, port) := by
  rw [Graph.sorted_ports, List.mem_flatMap]
  constructor
  · intro h
    obtain ⟨node, hnode, hp⟩ := h
    obtain ⟨port, hport, rfl⟩ := List.mem_map.mp hp
    obtain ⟨id, hid⟩ := Graph.mem_sorted_nodes.mp hnode
    exact ⟨id, node, hid, port, hport, rfl⟩
  · rintro ⟨id, node, hid, port, hport, rfl⟩
    exact ⟨node, Graph.mem_sorted_nodes.mpr ⟨id, hid⟩, List.mem_map.mpr ⟨port, hport, rfl⟩⟩

/-- A dangling port is an IN port that nothing feeds. -/
theorem mem_dangling_in (h : resolve_composite_boundary g = .ok b) (href : ref ∈ b.dangling_in) :
    ∃ id node, g.nodes.get? id = some node ∧ ∃ port ∈ node.in_ports,
      ref = ⟨node.id, port.id⟩ ∧ g.sources ⟨node.id, port.id⟩ = [] := by
  have hw := boundary_wiring h
  obtain ⟨w, hw', hpure⟩ := Checks.bind_eq_ok.mp h
  cases hpure
  obtain ⟨p, hp, rfl⟩ := List.mem_map.mp href
  obtain ⟨hmem, hfilter⟩ := List.mem_filter.mp hp
  obtain ⟨id, node, hnode, port, hport, rfl⟩ := mem_sorted_ports.mp hmem
  simp only [Bool.and_eq_true, decide_eq_true_eq] at hfilter
  have hin : port ∈ node.in_ports := Node.mem_in_ports.mpr ⟨hport, hfilter.1⟩
  have hupstream := (build_wiring_map_eq_ok hw hnode hin).1
  rw [hfilter.2, Option.some.injEq] at hupstream
  exact ⟨id, node, hnode, port, hin, rfl, hupstream.symm⟩

theorem mem_exposed_out (h : resolve_composite_boundary g = .ok b) (href : ref ∈ b.exposed_out) :
    ∃ id node, g.nodes.get? id = some node ∧ ∃ port ∈ node.out_ports, ref = ⟨node.id, port.id⟩ := by
  obtain ⟨w, hw, hpure⟩ := Checks.bind_eq_ok.mp h
  cases hpure
  obtain ⟨p, hp, rfl⟩ := List.mem_map.mp href
  obtain ⟨hmem, hfilter⟩ := List.mem_filter.mp hp
  obtain ⟨id, node, hnode, port, hport, rfl⟩ := mem_sorted_ports.mp hmem
  simp only [Bool.and_eq_true, decide_eq_true_eq] at hfilter
  exact ⟨id, node, hnode, port, Node.mem_out_ports.mpr ⟨hport, hfilter.1⟩, rfl⟩

theorem Sound.source_port_name (hs : Sound g) {id : String} {node : Node Sub}
    (hnode : g.nodes.get? id = some node) {port : Port} (hport : port ∈ node.ports) :
    g.source_port_name ⟨node.id, port.id⟩ = .ok port.name := by
  rw [← hs.valid.node_id hnode] at hnode
  rw [Graph.source_port_name, hnode, Checks.require_some]
  show Checks.require (node.port_name port.id) _ = _
  rw [(hs.tidy hnode).port_name hport, Checks.require_some]

/-! ## Parameters and seeds -/

/-- The key of a dangling port. -/
def boundary_key (g : Graph Sub) (ref : PortRef) : String × String :=
  (ref.node_id, (g.source_port_name ref).toOption.getD "")

theorem onBoundary_key (hs : Sound g) (h : resolve_composite_boundary g = .ok b)
    (href : ref ∈ b.dangling_in) : OnBoundary g (boundary_key g ref) := by
  obtain ⟨id, node, hnode, port, hport, rfl, hsources⟩ := mem_dangling_in h href
  have hname := hs.source_port_name hnode (Node.mem_in_ports.mp hport).1
  intro id' node' hnode' hid
  obtain rfl : node = node' := by
    rw [← hs.valid.node_id hnode] at hnode
    rw [← hs.valid.node_id hnode', hid] at hnode'
    exact Option.some.inj (hnode.symm.trans hnode')
  rw [boundary_key, hname]
  refine ⟨⟨port, hport, rfl⟩, fun port' hport' heq => ?_⟩
  obtain rfl := List.inj_on_of_nodup_map (hs.tidy hnode).in_names hport' hport heq
  exact hsources

/-- The ports of the composite, each with the dangling port that it stands for. -/
def pairs (node : Node (Graph Sub)) (b : CompositeBoundary) : List ((Port × PortRef) × Nat) :=
  (node.in_ports.zip b.dangling_in).zipIdx

section Pairs

variable {node : Node (Graph Sub)}

theorem mem_pairs {t : (Port × PortRef) × Nat} (ht : t ∈ pairs node b) :
    node.in_ports[t.2]? = some t.1.1 ∧ b.dangling_in[t.2]? = some t.1.2 := by
  have hget := List.mem_zipIdx_iff_getElem?.mp ht
  rw [List.getElem?_zip_eq_some] at hget
  exact hget

theorem param_overrides_eq (hs : Sound g) (h : resolve_composite_boundary g = .ok b)
    (hlength : node.in_ports.length = b.dangling_in.length) :
    (b.dangling_in.zipIdx.foldlM (param_override g) Dict.empty).toOption =
      (pairs node b).foldlM
        (fun d t => (some (formal t.2)).map (d.set (boundary_key g t.1.2))) Dict.empty := by
  have hrefs : b.dangling_in.zipIdx = (pairs node b).map fun t => (t.1.2, t.2) := by
    conv_lhs => rw [← List.map_snd_zip hlength.ge]
    exact List.zipIdx_map
  rw [hrefs, List.foldlM_map, toOption_foldlM]
  refine foldlM_congr (fun t ht d => ?_) _
  obtain ⟨id, node, hnode, port, hport, href, -⟩ :=
    mem_dangling_in h (List.mem_of_getElem? (mem_pairs ht).2)
  rw [param_override, boundary_key, href, hs.source_port_name hnode (Node.mem_in_ports.mp hport).1]
  rfl

/-- The seeds, by the same ports. -/
theorem seeds_eq (hf : KeepsFrame f) (hs : Sound g) (h : resolve_composite_boundary g = .ok b)
    (node_id : String) (inputs : Dict String V) :
    ((node.in_ports.zip b.dangling_in).foldlM (seed_input (g.map_nodes f) node_id inputs)
      Dict.empty).toOption =
      (pairs node b).foldlM
        (fun d t => (inputs.get? t.1.1.name).map (d.set (boundary_key g t.1.2))) Dict.empty := by
  have hports : node.in_ports.zip b.dangling_in = (pairs node b).map Prod.fst := by
    rw [pairs, List.zipIdx_map_fst]
  rw [hports, List.foldlM_map, toOption_foldlM]
  refine foldlM_congr (fun t ht d => ?_) _
  obtain ⟨id, node, hnode, port, hport, href, -⟩ :=
    mem_dangling_in h (List.mem_of_getElem? (mem_pairs ht).2)
  rw [seed_input, boundary_key, Graph.source_port_name_map_nodes hf, href,
    hs.source_port_name hnode (Node.mem_in_ports.mp hport).1]
  show (Checks.require (inputs.get? t.1.1.name) _ >>= _).toOption = _
  rw [toOption_bind, toOption_require, Option.map_eq_bind]
  rfl

end Pairs

end Boundary

/-! ## The function of a composite -/

/-- What holds of a subgraph, in a function with so many parameters. -/
structure Inside (l : Language V C ε) (kwargs : Dict String String) (uses : String → Prop)
    (name_map : List OutBinding) (formals : Nat) (g : Graph Sub) : Prop where
  sound : Sound g
  named : Named g kwargs.values name_map
  params : ∀ name ∈ g.params.keys, name ∈ kwargs.keys
  used : ∀ {id node}, g.nodes.get? id = some node → ∀ param ∈ node.params,
    ∀ ref, param.ref = some ref → uses ref ∧ ref ∈ kwargs.keys
  led : ∀ {ref kwarg}, uses ref → kwargs.get? ref = some kwarg → Led kwarg
  unlike : ∀ {ref kwarg}, uses ref → kwargs.get? ref = some kwarg → ∀ i < formals, kwarg ≠ formal i

section Inside

variable {l : Language V C ε} {kwargs : Dict String String} {uses : String → Prop}
  {name_map : List OutBinding} {g : Graph Sub} {f : Node Sub → Node Sub} {b : CompositeBoundary}
  {node : Node (Graph Sub)} {overrides : Dict (String × String) String}

/-- The names that a graph owns have an underscore, and no formal does. -/
theorem underscore_of_owned {reserved : List String} (hnamed : Named g reserved name_map)
    {name : String} (h : Owned l.nfkd g name_map name) : '_' ∈ name.toList := by
  rcases h with ⟨ref, hvar⟩ | ⟨id, node, -, rfl⟩
  · exact hnamed.underscore hvar
  · exact underscore_mem_fn_name _ _

theorem formal_not_owned {reserved : List String} (hnamed : Named g reserved name_map) (i : Nat) :
    ¬ Owned l.nfkd g name_map (formal i) := fun h =>
  underscore_notMem_formal i (underscore_of_owned hnamed h)

theorem Inside.keyword_not_owned {formals : Nat} (h : Inside l kwargs uses name_map formals g)
    {ref kwarg : String} (huses : uses ref) (hkwarg : kwargs.get? ref = some kwarg) :
    ¬ Owned l.nfkd g name_map kwarg := by
  rintro (⟨ref', hvar⟩ | ⟨id, node, -, hfn⟩)
  · exact h.named.unreserved hvar ((Dict.mem_values_iff _).mpr ⟨ref, hkwarg⟩)
  · exact (h.led huses hkwarg).ne_fn_name _ _ hfn

/-- The subgraph, with the parameters of the function of its composite. -/
theorem Inside.fits (h : Inside l kwargs uses name_map node.in_ports.length g)
    (hb : resolve_composite_boundary g = .ok b)
    (hoverrides : (pairs node b).foldlM
      (fun d t => (some (formal t.2)).map (d.set (boundary_key g t.1.2))) Dict.empty =
        some overrides) (seeds : Dict (String × String) V) (resolved : Dict String ParamValue) :
    (⟨g, b.wiring, name_map, overrides, seeds, kwargs, resolved, uses⟩ : Stage V Sub).Fits l := by
  have hkey : ∀ {key p}, overrides.get? key = some p →
      OnBoundary g key ∧ ∃ i, p = formal i := by
    intro key p hget
    rcases mem_of_foldlM_set hoverrides hget with hempty | ⟨t, ht, rfl, heq⟩
    · cases hempty
    · cases heq
      exact ⟨onBoundary_key h.sound hb (List.mem_of_getElem? (mem_pairs ht).2), t.2, rfl⟩
  constructor
  · exact h.sound
  · exact boundary_wiring hb
  · exact ⟨_, h.named⟩
  · exact fun hget => (hkey hget).1
  · intro key p hget
    obtain ⟨i, rfl⟩ := (hkey hget).2
    exact ⟨read_formal _ i, formal_not_owned h.named i⟩
  · exact h.keyword_not_owned
  · exact h.used

end Inside

/-! ## A call of the function -/

/-- The subgraph `g` of a composite, in the program of the graph around. -/
def Stage.inside (st : Stage V (Graph Sub)) (g : Graph Sub) (wiring : WiringMap)
    (name_map : List OutBinding) (uses : String → Prop)
    (overrides : Dict (String × String) String) (seeds : Dict (String × String) V) : Stage V Sub :=
  { graph := g, wiring, name_map, overrides, seeds, kwargs := st.kwargs, resolved := st.resolved,
    uses }

section Call

variable {l : Language V C ε} {st : Stage V (Graph Sub)} {uses : String → Prop}
  {name_map : List OutBinding} {g : Graph Sub} {f : Node Sub → Node Sub} {b : CompositeBoundary}
  {id : String} {node : Node (Graph Sub)} {overrides : Dict (String × String) String}
  {seeds : Dict (String × String) V} {outer : List (Frame V)} {results : Results V}
  {frame here : Frame V} {inputs : Dict String V} {values : List V}

/-- Defining the function of a composite changes nothing that is read. -/
theorem Stage.Holds.define (h : st.Holds l outer results frame) (hfits : st.Fits l)
    (hnode : st.graph.nodes.get? id = some node) :
    st.Holds l outer results (frame.bind (fn_name l.nfkd node) .function) := by
  obtain ⟨reserved, hnamed⟩ := hfits.named
  have hkept : Frame.Kept [fn_name l.nfkd node] frame
      (frame.bind (fn_name l.nfkd node) .function) :=
    Frame.Kept.bind _ List.mem_cons_self
  have hother : ∀ {name}, ¬ Owned l.nfkd st.graph st.name_map name →
      name ∉ [fn_name l.nfkd node] := by
    intro name hname hmem
    exact hname (.inr ⟨id, node, hnode, List.mem_singleton.mp hmem⟩)
  refine ⟨?_, h.locals, ?_, ?_, ?_, h.complete⟩
  · intro id' node' hnode' port hport name hname
    rw [hkept.value?, h.holds hnode' port hport hname]
    rw [List.mem_singleton]
    exact (hnamed.led hname).ne_fn_name _ _
  · intro key
    refine mono (h.supplied key) fun p v hp _ hlookup => ?_
    rw [hkept.lookup outer (hother (hfits.formals hp).2), hlookup]
  · intro ref kwarg huses hkwarg
    obtain ⟨value, hvalue, hlookup⟩ := h.keywords huses hkwarg
    refine ⟨value, hvalue, ?_⟩
    rw [hkept.lookup outer (hother (hfits.keywords huses hkwarg)), hlookup]
  · intro type name hname
    exact List.forall_mem_cons.mpr (List.forall_mem_cons.mp (h.globals hname))

theorem nodup_formals (n : Nat) : ((List.range n).map formal).Nodup :=
  List.nodup_range.map fun _ _ => formal_inj

theorem getElem?_formals {n i : Nat} (h : i < n) :
    ((List.range n).map formal)[i]? = some (formal i) := by
  rw [List.getElem?_map, List.getElem?_range h, Option.map_some]

/-- The function begins with the seeds in its parameters. -/
theorem Inside.starts (h : Inside l st.kwargs uses name_map node.in_ports.length g)
    (hholds : st.Holds l outer results here) (huses : ∀ {ref}, uses ref → st.uses ref)
    (hvalues : values.length = node.in_ports.length)
    (hargs : ∀ t ∈ pairs node b, inputs.get? t.1.1.name = values[t.2]?)
    (hoverrides : (pairs node b).foldlM
      (fun d t => (some (formal t.2)).map (d.set (boundary_key g t.1.2))) Dict.empty =
        some overrides)
    (hseeds : (pairs node b).foldlM
      (fun d t => (inputs.get? t.1.1.name).map (d.set (boundary_key g t.1.2))) Dict.empty =
        some seeds) :
    (st.inside g b.wiring name_map uses overrides seeds).Starts l (here :: outer) fun assigned =>
      Frame.enter ((List.range node.in_ports.length).map formal) assigned values := by
  intro assigned hcovers
  obtain ⟨inner, hinner⟩ : ∃ inner,
      Frame.enter ((List.range node.in_ports.length).map formal) assigned values = some inner := by
    rw [← Option.isSome_iff_exists, Frame.enter, Frame.assign_isSome_iff]
    simp [hvalues]
  obtain ⟨hlocals, hunbound⟩ := Frame.enter_spec hinner
  -- the parameters, which are no names of the subgraph
  have hformal : ∀ i < node.in_ports.length,
      lookup (inner :: here :: outer) (formal i) = values[i]? := by
    intro i hi
    rw [lookup_local, Frame.assign_value? hinner (nodup_formals _) (getElem?_formals hi)]
    rw [hlocals]
    exact List.mem_append_left _ (List.mem_of_getElem? (getElem?_formals hi))
  have hnot_formal : ∀ {name}, '_' ∈ name.toList →
      name ∉ (List.range node.in_ports.length).map formal := by
    intro name hunder hmem
    obtain ⟨i, -, rfl⟩ := List.mem_map.mp hmem
    exact underscore_notMem_formal i hunder
  refine ⟨inner, hinner, ?_, ?_, ?_, ?_, ?_, ?_⟩
  · intro id' node' hnode' port hport name hname
    exact hunbound name (hnot_formal (h.named.underscore hname))
  · intro ref name hname
    rw [hlocals]
    exact List.mem_append_right _ (hcovers.all hname)
  · intro key
    have hvalue : ∀ t ∈ pairs node b, Option.Rel
        (fun p v => lookup (inner :: here :: outer) p = some v)
        (some (formal t.2)) (inputs.get? t.1.1.name) := by
      intro t ht
      have hlt : t.2 < node.in_ports.length :=
        (List.getElem?_eq_some_iff.mp (mem_pairs ht).1).1
      rw [hargs t ht, List.getElem?_eq_getElem (hvalues ▸ hlt)]
      exact .some ((hformal t.2 hlt).trans (List.getElem?_eq_getElem _))
    have hfilled := foldlM_set (fun t => boundary_key g t.1.2) Dict.empty Dict.empty hvalue
      fun _ => .none
    rw [hoverrides, hseeds] at hfilled
    cases hfilled with
    | some hrel => exact hrel key
  · intro ref kwarg hused hkwarg
    obtain ⟨value, hvalue, hlookup⟩ := hholds.keywords (huses hused) hkwarg
    refine ⟨value, hvalue, ?_⟩
    rw [lookup_outer, hlookup]
    rw [hlocals, List.mem_append, not_or]
    constructor
    · intro hmem
      obtain ⟨i, hi, heq⟩ := List.mem_map.mp hmem
      exact h.unlike hused hkwarg i (List.mem_range.mp hi) heq.symm
    · exact fun hmem => h.keyword_not_owned hused hkwarg (hcovers.owned _ hmem)
  · intro type name hname
    obtain ⟨hunder, hformals⟩ := underscore_notMem_global hname
    rw [List.forall_mem_cons]
    refine ⟨?_, hholds.globals hname⟩
    rw [hlocals, List.mem_append, not_or]
    constructor
    · intro hmem
      obtain ⟨i, -, heq⟩ := List.mem_map.mp hmem
      exact hformals i heq.symm
    · exact fun hmem => hunder (underscore_of_owned h.named (hcovers.owned _ hmem))
  · intro id' node' outputs _ houtputs
    cases houtputs

end Call

/-! ## What is handed over -/

section Composite

variable {l : Language V C ε} {st : Stage V (Graph Sub)} {F : Node (Graph Sub) → Node (Graph Sub)}
  {id : String} {node : Node (Graph Sub)} {ctx : CodegenContext} {outer : List (Frame V)}
  {results : Results V} {here : Frame V}

/-- The actual arguments of a call. -/
def actuals (l : Language V C ε) (node : Node (Graph Sub)) (ctx : CodegenContext) :
    List (Expr V) :=
  node.in_ports.map fun port =>
    read_expr l.runtime.none_value ((ctx.in_vars.get? port.name).getD "")

theorem Stage.Reads.actuals_eq (hreads : st.Reads l F node ctx) :
    (node.in_ports.mapM fun port => Checks.require (ctx.in_vars.get? port.name)
      (BindingError.in_name port.name)) =
        .ok (node.in_ports.map fun port => (ctx.in_vars.get? port.name).getD "") := by
  refine Checks.mapM_eq_map fun port hport => ?_
  obtain ⟨text, htext, -⟩ := hreads.in_var port hport
  rw [htext]
  rfl

/-- The inputs of the composite are the values of the actual arguments, in order. -/
theorem Stage.Reads.actuals (hreads : st.Reads l F node ctx) (hfits : st.Fits l)
    (hF : KeepsFrame F) (hnode : st.graph.nodes.get? id = some node)
    (h : st.Holds l outer results here) :
    Option.Rel (fun inputs values => values.length = node.in_ports.length ∧
        ∀ (i : Nat) port, node.in_ports[i]? = some port →
          inputs.get? port.name = values[i]?)
      (bind_inputs l.runtime (st.graph.map_nodes F) st.wiring st.seeds results (F node)).toOption
      ((Program.actuals l node ctx).mapM (l.machine.eval (here :: outer))) := by
  have hports : ∀ port, port_value l.runtime (st.graph.map_nodes F) st.wiring st.seeds results
      (F node) port = port_value l.runtime (st.graph.map_nodes F) st.wiring st.seeds results
        node port := by
    intro port
    rw [port_value, port_value, hF.id]
  have hvalues : (Program.actuals l node ctx).mapM (l.machine.eval (here :: outer)) =
      node.in_ports.mapM fun port => (port_value l.runtime (st.graph.map_nodes F) st.wiring
        st.seeds results node port).toOption := by
    rw [Program.actuals, List.mapM_map]
    refine mapM_congr fun port hport => ?_
    obtain ⟨text, htext, hread⟩ := hreads.in_var port hport
    rw [Function.comp_apply, htext]
    exact hread h
  rw [bind_inputs_toOption, hF.in_ports, hvalues]
  simp only [hports]
  exact foldlM_set_mapM _ Dict.empty (hfits.sound.tidy hnode).in_names

/-- The outputs of the composite are the values of what its function returns, in order. -/
theorem outputs_together {inner : Stage V Sub} {f : Node Sub → Node Sub} {b : CompositeBoundary}
    {results' : Results V} {frame : Frame V} (hfits : inner.Fits l) (hf : KeepsFrame f)
    (hb : resolve_composite_boundary inner.graph = .ok b)
    (hnames : (node.out_ports.map (·.name)).Nodup)
    (hlength : node.out_ports.length = b.exposed_out.length)
    (h : inner.Holds l outer results' frame) :
    Option.Rel (fun outputs values => values.length = node.out_ports.length ∧
        ∀ (i : Nat) port, node.out_ports[i]? = some port →
          outputs.get? port.name = values[i]?)
      ((node.out_ports.zip b.exposed_out).foldlM
        (composite_output (inner.graph.map_nodes f) results') Dict.empty).toOption
      ((b.exposed_out.map fun ref => (var_for inner.name_map ref).getD "").mapM
        (lookup (frame :: outer))) := by
  have hfold : ((node.out_ports.zip b.exposed_out).foldlM
      (composite_output (inner.graph.map_nodes f) results') Dict.empty).toOption =
      (node.out_ports.zip b.exposed_out).foldlM (fun d p =>
        ((inner.graph.map_nodes f).source_value results' p.2).toOption.map (d.set p.1.name))
          Dict.empty := by
    rw [toOption_foldlM]
    refine foldlM_congr (fun p _ d => ?_) _
    rw [composite_output, toOption_bind, Option.map_eq_bind]
    rfl
  have hreturns : (b.exposed_out.map fun ref => (var_for inner.name_map ref).getD "").mapM
      (lookup (frame :: outer)) = (node.out_ports.zip b.exposed_out).mapM fun p =>
        ((inner.graph.map_nodes f).source_value results' p.2).toOption := by
    conv_lhs => rw [← List.map_snd_zip hlength.ge]
    rw [List.map_map, List.mapM_map]
    refine mapM_congr fun p hp => ?_
    have hp := List.of_mem_zip hp
    obtain ⟨id', node', hnode', port', hport', href⟩ := mem_exposed_out hb hp.2
    have hvar := hfits.var_for_out hnode' hport'
    rw [← href] at hvar
    show lookup (frame :: outer) ((var_for inner.name_map p.2).getD "") = _
    rw [hvar, Option.getD_some]
    rw [href] at hvar ⊢
    exact out_value_eq outer hf hfits.sound h.holds h.locals hnode' hport' hvar
  have hkeys : (node.out_ports.zip b.exposed_out).map (fun p => p.1.name) =
      node.out_ports.map (·.name) := by
    conv_rhs => rw [← List.map_fst_zip hlength.le, List.map_map]
    rfl
  rw [hfold, hreturns]
  refine mono (foldlM_set_mapM (fun p : Port × PortRef => p.1.name) Dict.empty
    (hkeys ▸ hnames)) fun outputs values _ _ hvalues => ?_
  rw [List.length_zip, hlength, Nat.min_self, ← hlength] at hvalues
  refine ⟨hvalues.1, fun i port hport => ?_⟩
  have hi : i < b.exposed_out.length := hlength ▸ (List.getElem?_eq_some_iff.mp hport).1
  refine hvalues.2 i (port, b.exposed_out[i]) ?_
  rw [List.getElem?_zip_eq_some]
  exact ⟨hport, List.getElem?_eq_getElem _⟩

/-! ## A composite -/

variable {f : Node Sub → Node Sub} {frame : Frame V}
  {a : Assembler (Graph Sub) (Fragment V) BindingError} {x : Executor (Graph Sub) V C ε}
  {a' : Assembler Sub (Fragment V) BindingError} {x' : Executor Sub V C ε}

/-- What `codegen_composite` writes. -/
theorem Stage.Reads.nest_eq (hreads : st.Reads l F node ctx) (hfits : st.Fits l)
    (hnode : st.graph.nodes.get? id = some node) {b : CompositeBoundary}
    {m : AssembledModule (Fragment V)} {fragment : Fragment V}
    (h : l.nest node ctx b m = .ok fragment) :
    ∃ returns, b.exposed_out.mapM (fun ref => Checks.require
        ((m.fragments.flatMap (·.outs)).lookup ref)
          (BindingError.out_var ref.node_id ref.port_id)) =
          .ok returns ∧
      fragment = {
        outs := out_bindings node (node.out_ports.map (out_name st.name_map node))
        code := .block (fn_name l.nfkd node) ((List.range node.in_ports.length).map formal)
          (body m.fragments) returns (Program.actuals l node ctx)
          (node.out_ports.map (out_name st.name_map node)) } := by
  rw [Language.nest, hreads.actuals_eq, hreads.out_vars hfits hnode] at h
  obtain ⟨returns, hreturns, h⟩ := Checks.bind_eq_ok.mp h
  cases h
  refine ⟨returns, hreturns, ?_⟩
  rw [Program.actuals, List.map_map]
  rfl

/-- The composite and its subgraph have ports in equal numbers. -/
def Fitting (node : Node (Graph Sub)) (b : CompositeBoundary) : Prop :=
  node.in_ports.length = b.dangling_in.length ∧ node.out_ports.length = b.exposed_out.length

instance (node : Node (Graph Sub)) (b : CompositeBoundary) : Decidable (Fitting node b) :=
  inferInstanceAs (Decidable (_ ∧ _))

theorem guards_toOption {β ε' : Type} (node : Node (Graph Sub)) (b : CompositeBoundary) (e e' : ε')
    (rest : Except ε' β) :
    (Checks.guard (node.in_ports.length = b.dangling_in.length) e >>= fun _ =>
      Checks.guard (node.out_ports.length = b.exposed_out.length) e' >>= fun _ => rest).toOption =
        if Fitting node b then rest.toOption else none := by
  by_cases hin : node.in_ports.length = b.dangling_in.length
  · by_cases hout : node.out_ports.length = b.exposed_out.length
    · rw [if_pos ⟨hin, hout⟩]
      simp only [hin, hout, decide_true]
      rfl
    · rw [if_neg fun h => hout h.2]
      simp only [hin, hout, decide_true, decide_false]
      rfl
  · rw [if_neg fun h => hin h.1]
    simp only [hin, decide_false]
    rfl

/-- What is left of `execute_composite` without its errors. -/
theorem execute_composite_toOption
    (run : Graph Sub → Dict (String × String) V → Except (ExecutionError ε) (Results V))
    (node : Node (Graph Sub)) (inputs : Dict String V) :
    (execute_composite run node inputs).toOption = node.subgraph.bind fun sub =>
      (resolve_composite_boundary sub).toOption.bind fun b =>
        if Fitting node b then
          ((node.in_ports.zip b.dangling_in).foldlM (seed_input sub node.id inputs)
            Dict.empty).toOption.bind fun seeds => (run sub seeds).toOption.bind fun results =>
              ((node.out_ports.zip b.exposed_out).foldlM (composite_output sub results)
                Dict.empty).toOption
        else none := by
  rw [execute_composite, toOption_bind, toOption_require]
  refine Option.bind_congr fun sub _ => ?_
  rw [toOption_bind, toOption_mapError]
  refine Option.bind_congr fun b _ => ?_
  rw [guards_toOption]
  simp only [toOption_bind, toOption_mapError]

/-- The same for `codegen_composite`. -/
theorem codegen_composite_toOption
    (assemble : Graph Sub → Dict (String × String) String → Dict String String →
      Except (AssemblyFailure BindingError) (AssembledModule (Fragment V)))
    (nest : Node (Graph Sub) → CodegenContext → CompositeBoundary → AssembledModule (Fragment V) →
      Except BindingError (Fragment V))
    (node : Node (Graph Sub)) (ctx : CodegenContext) (kwargs : Dict String String) :
    (codegen_composite assemble nest node ctx kwargs).toOption = node.subgraph.bind fun sub =>
      (resolve_composite_boundary sub).toOption.bind fun b =>
        if Fitting node b then
          (b.dangling_in.zipIdx.foldlM (param_override sub) Dict.empty).toOption.bind
            fun overrides => (assemble sub overrides kwargs).toOption.bind fun m =>
              (nest node ctx b m).toOption
        else none := by
  rw [codegen_composite, toOption_bind, toOption_require]
  refine Option.bind_congr fun sub _ => ?_
  rw [toOption_bind, toOption_mapError]
  refine Option.bind_congr fun b _ => ?_
  rw [guards_toOption]
  simp only [toOption_bind, toOption_mapError]

/-- The nested function, run by its call. -/
theorem Stage.Agrees.nest_run {sub : Graph Sub} {w : WiringMap} {name_map : List OutBinding}
    {uses : String → Prop} {overrides : Dict (String × String) String}
    {seeds : Dict (String × String) V} {b : CompositeBoundary} (hreads : st.Reads l F node ctx)
    (hfits : st.Fits l) (hnode : st.graph.nodes.get? id = some node)
    (hagrees : (st.inside sub w name_map uses overrides seeds).Agrees l f a' x')
    (hb : resolve_composite_boundary sub = .ok b) :
    ((a'.assemble sub overrides st.kwargs).toOption.bind fun m =>
      (l.nest node ctx b m).toOption).bind (fun fragment =>
        l.machine.run outer fragment.code frame) =
      ((Program.actuals l node ctx).mapM (l.machine.eval
        (frame.bind (fn_name l.nfkd node) .function :: outer))).bind fun values =>
          (((a'.assemble sub overrides st.kwargs).toOption.bind fun m =>
            (Frame.enter ((List.range node.in_ports.length).map formal)
              (body m.fragments).assigned values).bind (l.machine.run
                (frame.bind (fn_name l.nfkd node) .function :: outer) (body m.fragments)))).bind
            fun inner => ((b.exposed_out.map fun ref => (var_for name_map ref).getD "").mapM
              (lookup (inner :: frame.bind (fn_name l.nfkd node) .function :: outer))).bind
              ((frame.bind (fn_name l.nfkd node) .function).assign
                (node.out_ports.map (out_name st.name_map node))) := by
  simp only [Option.bind_assoc]
  rw [Option.bind_comm]
  refine Option.bind_congr fun m hm => ?_
  rw [toOption_eq_some] at hm
  have hreturns : b.exposed_out.mapM (fun ref => Checks.require
      ((m.fragments.flatMap (·.outs)).lookup ref)
      (BindingError.out_var ref.node_id ref.port_id)) =
        .ok (b.exposed_out.map fun ref => (var_for name_map ref).getD "") := by
    refine Checks.mapM_eq_map fun ref href => ?_
    obtain ⟨id', node', hnode', port, hport, rfl⟩ := mem_exposed_out hb href
    rw [hagrees.outs hm hnode' port hport]
    rfl
  have hnest : ∃ fragment, l.nest node ctx b m = .ok fragment := by
    rw [Language.nest, hreads.actuals_eq, hreads.out_vars hfits hnode, hreturns]
    exact ⟨_, rfl⟩
  obtain ⟨fragment, hfragment⟩ := hnest
  obtain ⟨returns, hreturns', hcode⟩ := hreads.nest_eq hfits hnode hfragment
  rw [hreturns, Except.ok.injEq] at hreturns'
  subst hreturns'
  rw [hfragment, hcode]
  show l.machine.run outer (.block _ _ _ _ _ _) frame = _
  simp only [Machine.run, Option.bind_eq_bind]

/-- A composite whose subgraph agrees. -/
theorem Stage.Reads.composite (f : Node Sub → Node Sub)
    (a' : Assembler Sub (Fragment V) BindingError) (x' : Executor Sub V C ε)
    (hreads : st.Reads l F node ctx) (hfits : st.Fits l)
    (hF : KeepsFrame F) (hnode : st.graph.nodes.get? id = some node)
    (hsubgraph : (F node).subgraph = node.subgraph.map (Graph.map_nodes f)) (hf : KeepsFrame f)
    (ha : a.composite = codegen_composite a'.assemble l.nest)
    (hx : x.composite = execute_composite x'.execute_functional)
    (hinside : ∀ sub, node.subgraph = some sub → ∃ name_map uses,
      Inside l st.kwargs uses name_map node.in_ports.length sub ∧
      (∀ {ref}, uses ref → st.uses ref) ∧
      ∀ wiring overrides seeds, (st.inside sub wiring name_map uses overrides seeds).Fits l →
        (st.inside sub wiring name_map uses overrides seeds).Agrees l f a' x') :
    st.Composite l F a x node ctx := by
  constructor
  · intro fragment h
    rw [ha, codegen_composite] at h
    obtain ⟨sub, -, h⟩ := Checks.bind_eq_ok.mp h
    obtain ⟨b, -, h⟩ := Checks.bind_eq_ok.mp h
    obtain ⟨_, -, h⟩ := Checks.bind_eq_ok.mp h
    obtain ⟨_, -, h⟩ := Checks.bind_eq_ok.mp h
    obtain ⟨overrides, -, h⟩ := Checks.bind_eq_ok.mp h
    obtain ⟨m, -, h⟩ := Checks.bind_eq_ok.mp h
    rw [Checks.mapError_eq_ok] at h
    obtain ⟨returns, -, rfl⟩ := hreads.nest_eq hfits hnode h
    refine ⟨out_bindings_eq _ _, fun name hname => List.mem_cons.mp hname, fun name hname => ?_⟩
    exact List.mem_cons_of_mem _ hname
  · intro outer results frame h
    have hin_ports := hF.in_ports node
    have hout_ports := hF.out_ports node
    have hfitting : ∀ b, Fitting (F node) b ↔ Fitting node b := by
      intro b
      rw [Fitting, hin_ports, hout_ports, Fitting]
    simp only [ha, hx, execute_composite_toOption, codegen_composite_toOption, hsubgraph, hfitting,
      hin_ports, hout_ports, hF.id, Option.bind_map, Function.comp_def,
      resolve_composite_boundary_map_nodes hf]
    rw [Option.bind_comm, Option.bind_assoc]
    refine bind_same fun sub hsub => ?_
    rw [Option.bind_comm, Option.bind_assoc]
    refine bind_same fun b hb => ?_
    by_cases hfit : Fitting node b
    · simp only [if_pos hfit]
      rw [toOption_eq_some] at hb
      obtain ⟨name_map, uses, hin, huses, hagrees⟩ := hinside sub hsub
      have hhere := h.define hfits hnode
      -- the parameters of the function are all made
      obtain ⟨overrides, hoverrides⟩ : ∃ overrides, (pairs node b).foldlM
          (fun d t => (some (formal t.2)).map (d.set (boundary_key sub t.1.2))) Dict.empty =
            some overrides := by
        rw [← Option.isSome_iff_exists, foldlM_set_isSome_iff]
        exact fun _ _ => rfl
      have hmade := param_overrides_eq hin.sound hb hfit.1
      rw [hoverrides] at hmade
      have hall := fun seeds => hagrees b.wiring overrides seeds
        (hin.fits hb hoverrides seeds st.resolved)
      rw [hmade, Option.bind_some, (hall Dict.empty).nest_run hreads hfits hnode hb]
      refine bind (hreads.actuals hfits hF hnode hhere) fun inputs values _ _ hvalues => ?_
      have hargs : ∀ t ∈ pairs node b, inputs.get? t.1.1.name = values[t.2]? :=
        fun t ht => hvalues.2 t.2 t.1.1 (mem_pairs ht).1
      -- and so are the seeds
      obtain ⟨seeds, hseeds⟩ : ∃ seeds, (pairs node b).foldlM
          (fun d t => (inputs.get? t.1.1.name).map (d.set (boundary_key sub t.1.2))) Dict.empty =
            some seeds := by
        rw [← Option.isSome_iff_exists, foldlM_set_isSome_iff]
        intro t ht
        have hlt := (List.getElem?_eq_some_iff.mp (mem_pairs ht).1).1
        rw [hargs t ht, List.getElem?_eq_getElem (hvalues.1 ▸ hlt)]
        rfl
      rw [seeds_eq hf hin.sound hb, hseeds, Option.bind_some]
      have hstarts := hin.starts hhere huses hvalues.1 hargs hoverrides hseeds
      refine bind ((hall seeds).runs hstarts) fun results' inner _ _ hinner => ?_
      have houtputs := outputs_together (hin.fits hb hoverrides seeds st.resolved) hf hb
        (hfits.sound.tidy hnode).out_names hfit.2 hinner.1
      refine bind_right houtputs fun outputs returned hreturned => ?_
      have hsome : ((frame.bind (fn_name l.nfkd node) .function).assign
          (node.out_ports.map (out_name st.name_map node)) returned).isSome = true :=
        Frame.assign_isSome_iff.mpr (by rw [List.length_map, hreturned.1])
      obtain ⟨frame', hframe'⟩ := Option.isSome_iff_exists.mp hsome
      exact ⟨frame', hframe', hfits.assigned hnode (Frame.Kept.bind _ List.mem_cons_self) hframe'
        hreturned.2⟩
    · simp only [if_neg hfit, Option.bind_fun_none]
      exact .none

end Composite

end EmergentFlow.Program
