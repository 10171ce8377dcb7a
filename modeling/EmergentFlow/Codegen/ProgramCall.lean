import EmergentFlow.Codegen.ProgramStep

/-!
# Codegen — ProgramCall

A node that is no composite: the call in its fragment gets the inputs and the params
that the executor hands to the node, and what it assigns is what the node returns.
-/

namespace EmergentFlow.Program

open Naming Scopes Together

variable {Sub V C ε : Type}

/-! ## One level of a program -/

/-- A key of a seed: an IN port of the graph that nothing inside feeds. -/
def OnBoundary (g : Graph Sub) (key : String × String) : Prop :=
  ∀ {id node}, g.nodes.get? id = some node → node.id = key.1 →
    (∃ port ∈ node.in_ports, port.name = key.2) ∧
      ∀ port ∈ node.in_ports, port.name = key.2 → g.sources ⟨node.id, port.id⟩ = []

/-- The names that the fragments of a graph assign. -/
def Owned (nfkd : String → String) (g : Graph Sub) (name_map : List OutBinding) (name : String) :
    Prop :=
  (∃ ref, var_for name_map ref = some name) ∨
    ∃ id node, g.nodes.get? id = some node ∧ name = fn_name nfkd node

/-- A graph in a program: `overrides` are the parameters of its function that stand for
the seeds of a run, `kwargs` the keywords of `main`, and `uses` the graph params that it
refers to. -/
structure Stage (V : Type) (Sub : Type) where
  graph : Graph Sub
  wiring : WiringMap
  name_map : List OutBinding
  overrides : Dict (String × String) String
  seeds : Dict (String × String) V
  kwargs : Dict String String
  resolved : Dict String ParamValue
  uses : String → Prop

/-- What holds of a graph and its names. -/
structure Stage.Fits (st : Stage V Sub) (l : Language V C ε) : Prop where
  sound : Sound st.graph
  wired : build_wiring_map st.graph = .ok st.wiring
  named : ∃ reserved, Named st.graph reserved st.name_map
  boundary : ∀ {key p}, st.overrides.get? key = some p → OnBoundary st.graph key
  formals : ∀ {key p}, st.overrides.get? key = some p →
    read_expr l.runtime.none_value p = .var p ∧ ¬ Owned l.nfkd st.graph st.name_map p
  keywords : ∀ {ref kwarg}, st.uses ref → st.kwargs.get? ref = some kwarg →
    ¬ Owned l.nfkd st.graph st.name_map kwarg
  used : ∀ {id node}, st.graph.nodes.get? id = some node → ∀ param ∈ node.params,
    ∀ ref, param.ref = some ref → st.uses ref ∧ ref ∈ st.kwargs.keys

/-- What holds of the functions around, and of the own one, with these results so far. -/
structure Stage.Holds (st : Stage V Sub) (l : Language V C ε) (outer : List (Frame V))
    (results : Results V) (frame : Frame V) : Prop where
  holds : Program.Holds st.graph st.name_map results frame
  locals : ∀ {ref name}, var_for st.name_map ref = some name → name ∈ frame.locals
  supplied : ∀ key, Option.Rel (fun p v => lookup (frame :: outer) p = some v)
    (st.overrides.get? key) (st.seeds.get? key)
  keywords : ∀ {ref kwarg}, st.uses ref → st.kwargs.get? ref = some kwarg →
    ∃ value, st.resolved.get? ref = some value ∧
      lookup (frame :: outer) kwarg = some (l.literal value)
  globals : ∀ {type name}, name ∈ global_names l.runtime.registry type →
    ∀ frame' ∈ frame :: outer, name ∉ frame'.locals
  complete : ∀ {id node outputs}, st.graph.nodes.get? id = some node →
    results.get? node.id = some outputs →
      ∀ port ∈ node.out_ports, (outputs.get? port.name).isSome

/-- What running the fragment of a node leaves: the outputs in the variables of the OUT
ports, and all names that are not the node's as they were. -/
structure Assigned (l : Language V C ε) (name_map : List OutBinding) (node : Node Sub)
    (frame : Frame V) (outputs : Dict String V) (frame' : Frame V) : Prop where
  locals : frame'.locals = frame.locals
  out : ∀ port ∈ node.out_ports, ∀ {name}, var_for name_map ⟨node.id, port.id⟩ = some name →
    frame'.value? name = outputs.get? port.name
  kept : ∀ {name}, name ≠ fn_name l.nfkd node →
    (∀ port ∈ node.out_ports, var_for name_map ⟨node.id, port.id⟩ ≠ some name) →
      frame'.bound.get? name = frame.bound.get? name
  complete : ∀ port ∈ node.out_ports, (outputs.get? port.name).isSome

section Level

variable {l : Language V C ε} {st : Stage V Sub} {outer : List (Frame V)} {results : Results V}
  {frame frame' : Frame V} {id : String} {node : Node Sub} {outputs : Dict String V}

/-- A name that the graph does not own is looked up as before. -/
theorem Assigned.lookup (h : Assigned l st.name_map node frame outputs frame')
    (hnode : st.graph.nodes.get? id = some node) {name : String}
    (hname : ¬ Owned l.nfkd st.graph st.name_map name) :
    Scopes.lookup (frame' :: outer) name = Scopes.lookup (frame :: outer) name := by
  have hbound : frame'.bound.get? name = frame.bound.get? name := by
    refine h.kept (fun heq => hname (.inr ⟨id, node, hnode, heq⟩)) ?_
    exact fun port _ hvar => hname (.inl ⟨_, hvar⟩)
  rw [Scopes.lookup, Scopes.lookup, h.locals, Frame.value?, Frame.value?, hbound]

/-- The next node finds what it needs. -/
theorem Stage.Holds.next (h : st.Holds l outer results frame) (hfits : st.Fits l)
    (hnode : st.graph.nodes.get? id = some node)
    (hassigned : Assigned l st.name_map node frame outputs frame') :
    st.Holds l outer (results.set id outputs) frame' := by
  obtain ⟨reserved, hnamed⟩ := hfits.named
  have hid := hfits.sound.valid.node_id hnode
  refine ⟨?_, ?_, ?_, ?_, ?_, ?_⟩
  · intro id' node' hnode' port hport name hname
    have hid' := hfits.sound.valid.node_id hnode'
    rw [Dict.get?_set]
    by_cases heq : id = node'.id
    · obtain rfl : node = node' := by
        rw [← hid', ← heq, hnode] at hnode'
        exact Option.some.inj hnode'
      rw [if_pos heq, Option.bind_some]
      exact hassigned.out port hport hname
    · -- the variable of a port of another node
      rw [if_neg heq, ← h.holds hnode' port hport hname, Frame.value?, Frame.value?]
      rw [hassigned.kept]
      · exact (hnamed.led hname).ne_fn_name _ _
      · intro port' _ hvar
        have href := hnamed.distinct hname hvar
        rw [PortRef.mk.injEq] at href
        exact heq (hid ▸ href.1.symm)
  · intro ref name hname
    rw [hassigned.locals]
    exact h.locals hname
  · intro key
    have hrel := h.supplied key
    refine mono hrel fun p v hp _ hlookup => ?_
    rw [hassigned.lookup hnode (hfits.formals hp).2, hlookup]
  · intro ref kwarg huses hkwarg
    obtain ⟨value, hvalue, hlookup⟩ := h.keywords huses hkwarg
    exact ⟨value, hvalue, by rw [hassigned.lookup hnode (hfits.keywords huses hkwarg), hlookup]⟩
  · intro type name hname
    rw [List.forall_mem_cons, hassigned.locals]
    exact List.forall_mem_cons.mp (h.globals hname)
  · intro id' node' outputs' hnode' houtputs
    rw [Dict.get?_set] at houtputs
    split at houtputs
    · rename_i heq
      obtain rfl : node = node' := by
        rw [← hfits.sound.valid.node_id hnode', ← heq, hnode] at hnode'
        exact Option.some.inj hnode'
      cases houtputs
      exact hassigned.complete
    · exact h.complete hnode' houtputs

end Level

/-! ## The context of a node -/

/-- The context of a node reads what the executor binds. -/
structure Stage.Reads (st : Stage V Sub) (l : Language V C ε) (f : Node Sub → Node Sub)
    (node : Node Sub) (ctx : CodegenContext) : Prop where
  in_var : ∀ port ∈ node.in_ports, ∃ text, ctx.in_vars.get? port.name = some text ∧
    ∀ {outer results frame}, st.Holds l outer results frame →
      l.machine.eval (frame :: outer) (read_expr l.runtime.none_value text) =
        (port_value l.runtime (st.graph.map_nodes f) st.wiring st.seeds results node port).toOption
  other : ∀ name ∉ node.in_ports.map (·.name), ∀ text, ctx.in_vars.get? name = some text →
    ∀ frames, l.machine.eval frames (read_expr l.runtime.none_value text) =
      some (absent_input l.runtime node.type name)
  out_var : ∀ port ∈ node.out_ports,
    ctx.out_vars.get? port.name = var_for st.name_map ⟨node.id, port.id⟩
  param : ∀ param ∈ node.params, ctx.param_exprs.get? param.name = param.ref.bind st.kwargs.get?
  resolves : ∀ param ∈ node.params, ∀ ref, param.ref = some ref → ref ∈ st.kwargs.keys

section Context

variable {l : Language V C ε} {st : Stage V Sub} {f : Node Sub → Node Sub} {id : String}
  {node : Node Sub}

theorem read_backfill (rt : Runtime V) (frames : List (Frame V)) (m : Machine NodeCall Arg V)
    (hm : m.list = rt.list_value) (spec : PortSpec) :
    m.eval frames (read_expr rt.none_value (if spec.cardinality = .MANY then "[]" else "None")) =
      some (if spec.cardinality = .MANY then rt.list_value [] else rt.none_value) := by
  split
  · rw [← hm]
    rfl
  · rw [read_none]
    rfl

/-- The context of a node of the graph can be built. -/
theorem Stage.Fits.context (hfits : st.Fits l) (hf : KeepsFrame f)
    (hnode : st.graph.nodes.get? id = some node) :
    ∃ ctx refs, build_codegen_context node st.name_map st.wiring l.runtime.registry = .ok ctx ∧
      param_expr_refs st.kwargs node = .ok refs ∧
        st.Reads l f node ((ctx.supply st.overrides node.id).embed refs) := by
  obtain ⟨reserved, hnamed⟩ := hfits.named
  have htidy := hfits.sound.tidy hnode
  obtain ⟨ctx, hctx, hbound⟩ : ∃ ctx,
      node.ports.foldlM (bind_context st.name_map st.wiring node) {} = .ok ctx ∧
        Bound st.name_map st.wiring node node.ports {} ctx := bound_foldlM {}
    (fun port hport hdir => by
      obtain ⟨text, htext, -⟩ := in_expr_spec (l := l) hf hfits.sound hnamed hfits.wired hnode
        (Node.mem_in_ports.mpr ⟨hport, hdir⟩)
      exact ⟨text, htext⟩)
    (fun port hport hdir => hnamed.named hnode port (Node.mem_out_ports.mpr ⟨hport, hdir⟩))
  obtain ⟨refs, hrefs⟩ := param_expr_refs_of_mem fun param hparam ref href =>
    (hfits.used hnode param hparam ref href).2
  refine ⟨_, refs, by rw [build_codegen_context, hctx]; rfl, hrefs, ?_⟩
  obtain ⟨hfound, hkeys, -⟩ := param_expr_refs_spec htidy.param_names hrefs
  have hin : ∀ name, (({ ctx with
      in_vars := ((l.runtime.registry node.type).elim [] (·.ports)).foldl backfill ctx.in_vars }
        : CodegenContext).supply st.overrides node.id).in_vars.get? name =
      (st.overrides.get? (node.id, name)).or ((ctx.in_vars.get? name).or
        ((((l.runtime.registry node.type).elim [] (·.ports)).find? (optional name)).map fun spec =>
          if spec.cardinality = .MANY then "[]" else "None")) := by
    intro name
    rw [get?_supply, get?_backfill]
  refine ⟨?_, ?_, ?_, ?_, ?_⟩
  · intro port hport
    obtain ⟨text, htext, hread⟩ :=
      in_expr_spec (l := l) hf hfits.sound hnamed hfits.wired hnode hport
    have hvar := hbound.in_var htidy.in_names port hport text htext
    have hupstream := (build_wiring_map_eq_ok hfits.wired hnode hport).1
    cases hover : st.overrides.get? (node.id, port.name) with
    | none =>
        refine ⟨text, by rw [CodegenContext.embed, hin, hover, hvar]; rfl, ?_⟩
        intro outer results frame h
        exact hread outer h.holds h.locals (left_none (h.supplied _) hover)
    | some p =>
        refine ⟨p, by rw [CodegenContext.embed, hin, hover]; rfl, ?_⟩
        intro outer results frame h
        obtain ⟨v, hseed, hlookup⟩ := left (h.supplied (node.id, port.name)) hover
        have hempty := (hfits.boundary hover hnode rfl).2 port hport rfl
        rw [(hfits.formals hover).1, port_value, hupstream, hempty, hseed]
        show lookup (frame :: outer) p = _
        rw [hlookup]
        cases port.cardinality <;> rfl
  · intro name hname text htext frames
    rw [CodegenContext.embed, hin] at htext
    cases hover : st.overrides.get? (node.id, name) with
    | some p =>
        obtain ⟨port, hport, hportname⟩ := (hfits.boundary hover hnode rfl).1
        exact absurd (List.mem_map.mpr ⟨port, hport, hportname⟩) hname
    | none =>
        have hnone : ctx.in_vars.get? name = none := hbound.in_other name hname
        rw [hover, hnone, Option.none_or, Option.none_or] at htext
        obtain ⟨spec, hspec, rfl⟩ := Option.map_eq_some_iff.mp htext
        rw [read_backfill l.runtime frames l.machine rfl, absent_input]
        have hfind : ((l.runtime.registry node.type).bind fun d => d.ports.find? fun spec =>
            spec.direction = .IN && !spec.required && spec.name = name) = some spec := by
          cases hd : l.runtime.registry node.type with
          | none =>
              rw [hd] at hspec
              cases hspec
          | some d =>
              rw [hd] at hspec
              exact hspec
        rw [hfind]
  · exact fun port hport => hbound.out_var htidy.out_names port hport
  · intro param hparam
    rw [get?_embed, hfound param hparam]
    have hempty : ctx.param_exprs = Dict.empty := hbound.params
    show (param.ref.bind st.kwargs.get?).or (ctx.param_exprs.get? param.name) = _
    rw [hempty, Dict.get?_empty, Option.or_none]
  · exact hkeys

end Context

/-! ## The arguments of a call -/

/-- The function maps a node to itself with the values of its references. -/
structure Bakes (resolved : Dict String ParamValue) (f : Node Sub → Node Sub) : Prop where
  frame : KeepsFrame f
  params : ∀ node, (f node).params = node.params.map (·.bake resolved)

section Args

variable {l : Language V C ε} {st : Stage V Sub} {f : Node Sub → Node Sub} {id : String}
  {node : Node Sub} {ctx : CodegenContext} {outer : List (Frame V)} {results : Results V}
  {frame : Frame V}

/-- The arguments for the IN ports. -/
def input_args (l : Language V C ε) (ctx : CodegenContext) : List (Arg × Expr V) :=
  ctx.in_vars.entries.map fun e => (Arg.input e.1, read_expr l.runtime.none_value e.2)

/-- The arguments for the params. -/
def param_args (l : Language V C ε) (node : Node Sub) (ctx : CodegenContext) :
    List (Arg × Expr V) :=
  node.param_values.entries.map fun e => (Arg.param e.1, param_expr l.literal ctx e)

theorem lookup_input (ctx : CodegenContext) (node : Node Sub) (name : String) :
    (input_args l ctx ++ param_args l node ctx).lookup (.input name) =
      (ctx.in_vars.get? name).map (read_expr l.runtime.none_value) := by
  have hparams : (param_args l node ctx).lookup (.input name) = none :=
    lookup_map_eq_none fun _ _ h => by cases h
  have hinputs := lookup_map (c := Arg.input) (fun _ _ => Arg.input.inj) Prod.fst
    (fun e : String × String => read_expr l.runtime.none_value e.2) ctx.in_vars.entries name
  rw [List.lookup_append, hparams, Option.or_none, input_args, hinputs, ← find?_entries,
    Option.map_map]
  rfl

theorem lookup_param (ctx : CodegenContext) (node : Node Sub) (name : String) :
    (input_args l ctx ++ param_args l node ctx).lookup (.param name) =
      (node.param_values.entries.find? (·.1 = name)).map (param_expr l.literal ctx) := by
  have hinputs : (input_args l ctx).lookup (.param name) = none :=
    lookup_map_eq_none fun _ _ h => by cases h
  rw [List.lookup_append, hinputs, Option.none_or]
  exact lookup_map (c := Arg.param) (fun _ _ => Arg.param.inj) Prod.fst
    (param_expr l.literal ctx) node.param_values.entries name

theorem param_values_entries (htidy : Tidy node) :
    node.param_values.entries = node.params.map fun p => (p.name, p.value) := by
  rw [Node.param_values, Dict.entries_ofList]
  rw [List.map_map]
  exact htidy.param_names

/-- A param is read with the value that the run gives it. -/
theorem Stage.Reads.eval_param (hreads : st.Reads l f node ctx) (hfits : st.Fits l)
    (hnode : st.graph.nodes.get? id = some node) (h : st.Holds l outer results frame)
    {p : Param} (hp : p ∈ node.params) :
    l.machine.eval (frame :: outer) (param_expr l.literal ctx (p.name, p.value)) =
      some (l.literal (p.bake st.resolved).value) := by
  rw [param_expr, hreads.param p hp, Param.bake]
  cases href : p.ref with
  | none => rfl
  | some ref =>
      obtain ⟨kwarg, hkwarg⟩ := (Dict.mem_keys_iff _).mp (hreads.resolves p hp ref href)
      obtain ⟨value, hvalue, hlookup⟩ := h.keywords (hfits.used hnode p hp ref href).1 hkwarg
      rw [Option.bind_some, Option.bind_some, hkwarg, hvalue]
      exact hlookup

/-- The arguments are there just when the executor can bind the inputs, and then the
call reads the same from both. -/
theorem Stage.Reads.args (hreads : st.Reads l f node ctx) (hfits : st.Fits l)
    (hb : Bakes st.resolved f) (hnode : st.graph.nodes.get? id = some node)
    (h : st.Holds l outer results frame) :
    Option.Rel (fun inputs values =>
        (∀ name, (inputs.get? name).getD (absent_input l.runtime node.type name) =
          (values.lookup (.input name)).getD (absent_input l.runtime node.type name)) ∧
        ∀ name, ((f node).param_values.get? name).map l.literal = values.lookup (.param name))
      (bind_inputs l.runtime (st.graph.map_nodes f) st.wiring st.seeds results (f node)).toOption
      (l.machine.eval_args (frame :: outer) (input_args l ctx ++ param_args l node ctx)) := by
  have htidy := hfits.sound.tidy hnode
  have hports : ∀ port, port_value l.runtime (st.graph.map_nodes f) st.wiring st.seeds results
      (f node) port = port_value l.runtime (st.graph.map_nodes f) st.wiring st.seeds results
        node port := by
    intro port
    rw [port_value, port_value, hb.frame.id]
  rw [bind_inputs_toOption, hb.frame.in_ports]
  simp only [hports]
  -- both sides evaluate the same ports
  have hsome : (node.in_ports.foldlM (fun inputs port => (port_value l.runtime
      (st.graph.map_nodes f) st.wiring st.seeds results node port).toOption.map
        (inputs.set port.name)) Dict.empty).isSome ↔
      (l.machine.eval_args (frame :: outer)
        (input_args l ctx ++ param_args l node ctx)).isSome := by
    rw [foldlM_set_isSome_iff, Machine.eval_args_isSome_iff, List.forall_mem_append]
    constructor
    · intro hall
      constructor
      · intro arg harg
        obtain ⟨e, he, rfl⟩ := List.mem_map.mp harg
        have hget := (Dict.mem_entries_iff _).mp he
        by_cases hname : e.1 ∈ node.in_ports.map (·.name)
        · obtain ⟨port, hport, hportname⟩ := List.mem_map.mp hname
          obtain ⟨text, htext, hread⟩ := hreads.in_var port hport
          rw [hportname, hget, Option.some.injEq] at htext
          rw [htext, hread h]
          exact hall port hport
        · rw [hreads.other _ hname _ hget]
          rfl
      · intro arg harg
        obtain ⟨e, he, rfl⟩ := List.mem_map.mp harg
        rw [param_values_entries htidy] at he
        obtain ⟨p, hp, rfl⟩ := List.mem_map.mp he
        rw [hreads.eval_param hfits hnode h hp]
        rfl
    · rintro ⟨hall, -⟩ port hport
      obtain ⟨text, htext, hread⟩ := hreads.in_var port hport
      rw [← hread h]
      exact hall _ (List.mem_map.mpr ⟨(port.name, text), (Dict.mem_entries_iff _).mpr htext, rfl⟩)
  cases hinputs : node.in_ports.foldlM (fun inputs port => (port_value l.runtime
      (st.graph.map_nodes f) st.wiring st.seeds results node port).toOption.map
        (inputs.set port.name)) Dict.empty with
  | none =>
      cases hvalues : l.machine.eval_args (frame :: outer)
          (input_args l ctx ++ param_args l node ctx) with
      | none => exact .none
      | some values =>
          rw [hinputs, hvalues] at hsome
          simp at hsome
  | some inputs =>
      cases hvalues : l.machine.eval_args (frame :: outer)
          (input_args l ctx ++ param_args l node ctx) with
      | none =>
          rw [hinputs, hvalues] at hsome
          simp at hsome
      | some values =>
          refine .some ⟨fun name => ?_, fun name => ?_⟩
          · obtain ⟨hfound, hother⟩ := get?_foldlM_set htidy.in_names hinputs
            rw [Machine.lookup_eval_args hvalues, lookup_input]
            by_cases hname : name ∈ node.in_ports.map (·.name)
            · obtain ⟨port, hport, rfl⟩ := List.mem_map.mp hname
              obtain ⟨text, htext, hread⟩ := hreads.in_var port hport
              rw [hfound port hport, htext, Option.map_some, Option.bind_some, hread h]
            · rw [hother name hname, Dict.get?_empty, Option.getD_none]
              cases htext : ctx.in_vars.get? name with
              | none => rfl
              | some text =>
                  rw [Option.map_some, Option.bind_some, hreads.other name hname text htext]
                  rfl
          · rw [Machine.lookup_eval_args hvalues, lookup_param, param_values_entries htidy,
              Node.param_values, hb.params, List.map_map]
            have hbaked : ∀ p : Param, (p.bake st.resolved).name = p.name := by
              intro p
              rw [Param.bake]
              split <;> rfl
            have hmap : node.params.map ((fun p => (p.name, p.value)) ∘ (·.bake st.resolved)) =
                node.params.map fun p => (p.name, (p.bake st.resolved).value) :=
              List.map_congr_left fun p _ => by rw [Function.comp_apply, hbaked]
            rw [hmap, get?_ofList_map htidy.param_names, List.find?_map, Option.map_map,
              Option.map_map]
            show (node.params.find? (·.name = name)).map _ =
              ((node.params.find? (·.name = name)).map _).bind _
            cases hfind : node.params.find? (·.name = name) with
            | none => rfl
            | some p =>
                rw [Option.map_some, Option.map_some, Option.bind_some]
                exact (hreads.eval_param hfits hnode h (List.mem_of_find?_eq_some hfind)).symm

end Args

/-! ## The results of a call -/

section Results

variable {l : Language V C ε} {st : Stage V Sub} {f : Node Sub → Node Sub} {id : String}
  {node : Node Sub} {ctx : CodegenContext} {outer : List (Frame V)} {results : Results V}
  {frame frame' here : Frame V} {values : List V}
  {outputs : Dict String V}

/-- The variable of an OUT port. -/
def out_name (name_map : List OutBinding) (node : Node Sub) (port : Port) : String :=
  (var_for name_map ⟨node.id, port.id⟩).getD ""

theorem Stage.Fits.var_for_out (hfits : st.Fits l) (hnode : st.graph.nodes.get? id = some node)
    {port : Port} (hport : port ∈ node.out_ports) :
    var_for st.name_map ⟨node.id, port.id⟩ = some (out_name st.name_map node port) := by
  obtain ⟨reserved, hnamed⟩ := hfits.named
  obtain ⟨name, hname⟩ := hnamed.named hnode port hport
  rw [out_name, hname, Option.getD_some]

theorem Stage.Reads.out_vars (hreads : st.Reads l f node ctx) (hfits : st.Fits l)
    (hnode : st.graph.nodes.get? id = some node) :
    Program.out_vars node ctx = .ok (node.out_ports.map (out_name st.name_map node)) := by
  refine Checks.mapM_eq_map fun port hport => ?_
  rw [hreads.out_var port hport, hfits.var_for_out hnode hport, Checks.require_some]

theorem Stage.Fits.out_names_nodup (hfits : st.Fits l)
    (hnode : st.graph.nodes.get? id = some node) :
    (node.out_ports.map (out_name st.name_map node)).Nodup := by
  obtain ⟨reserved, hnamed⟩ := hfits.named
  have hids : (node.out_ports.map (·.id)).Nodup :=
    (hfits.sound.tidy hnode).port_ids.sublist (List.filter_sublist.map _)
  rw [List.nodup_map_iff_inj_on (List.Nodup.of_map _ hids)]
  intro port hport port' hport' heq
  have hvar' := hfits.var_for_out hnode hport'
  rw [← heq] at hvar'
  have href := hnamed.distinct (hfits.var_for_out hnode hport) hvar'
  rw [PortRef.mk.injEq] at href
  exact List.inj_on_of_nodup_map hids hport hport' href.2

/-- Assigning the outputs of a node to its variables. -/
theorem Stage.Fits.assigned (hfits : st.Fits l) (hnode : st.graph.nodes.get? id = some node)
    (hhere : Frame.Kept [fn_name l.nfkd node] frame here)
    (hassign : here.assign (node.out_ports.map (out_name st.name_map node)) values = some frame')
    (houtputs : ∀ (i : Nat) port, node.out_ports[i]? = some port →
      outputs.get? port.name = values[i]?) :
    Assigned l st.name_map node frame outputs frame' := by
  have hkept := Frame.assign_kept hassign
  have hlength : node.out_ports.length = values.length := by
    simpa using Frame.assign_isSome_iff.mp (Option.isSome_of_mem hassign)
  refine ⟨hkept.locals.trans hhere.locals, ?_, ?_, ?_⟩
  · intro port hport name hname
    rw [hfits.var_for_out hnode hport, Option.some.injEq] at hname
    obtain ⟨i, hi⟩ := List.mem_iff_getElem?.mp hport
    have htarget : (node.out_ports.map (out_name st.name_map node))[i]? = some name := by
      rw [List.getElem?_map, hi, Option.map_some, hname]
    rw [Frame.assign_value? hassign (hfits.out_names_nodup hnode) htarget, houtputs i port hi]
  · intro name hfn hnone
    rw [hkept.bound name, hhere.bound name (by simpa using hfn)]
    intro hmem
    obtain ⟨port, hport, rfl⟩ := List.mem_map.mp hmem
    exact hnone port hport (hfits.var_for_out hnode hport)
  · intro port hport
    obtain ⟨i, hi, rfl⟩ := List.getElem_of_mem hport
    rw [houtputs i _ (List.getElem?_eq_getElem hi), List.getElem?_eq_getElem (hlength ▸ hi)]
    rfl

/-- What the executor gets from a node that is no composite. -/
theorem dispatch_eq (l : Language V C ε) {node : Node Sub} {d : NodeDefinition}
    (hd : l.runtime.registry node.type = some d) (hplain : node.type ≠ COMPOSITE_NODE_TYPE)
    (inputs : Dict String V) :
    (dispatch l.behaviour l.clients d node inputs).toOption =
      (l.client node.type).bind fun client => (l.behaviour node inputs client).toOption := by
  have hexecute : ∀ client,
      (definition_execute (l.behaviour : Behaviour Sub V C ε) node inputs client).toOption =
        (l.behaviour node inputs client).toOption := by
    intro client
    rw [definition_execute, if_neg hplain, toOption_mapError]
  rw [dispatch, Language.client, hd, Option.map_some]
  rcases d.required_client_kinds with _ | ⟨kind, _ | _⟩
  · exact hexecute _
  · exact hexecute _
  · rfl

/-- A node that is no composite, called and run. -/
theorem Stage.Reads.call (hreads : st.Reads l f node ctx) (hfits : st.Fits l)
    (hb : Bakes st.resolved f) (hnode : st.graph.nodes.get? id = some node)
    (h : st.Holds l outer results frame) {d : NodeDefinition}
    (hd : l.runtime.registry node.type = some d) (hplain : node.type ≠ COMPOSITE_NODE_TYPE) :
    Option.Rel (Assigned l st.name_map node frame)
      ((bind_inputs l.runtime (st.graph.map_nodes f) st.wiring st.seeds results
        (f node)).toOption.bind fun inputs =>
          (dispatch l.behaviour l.clients d (f node) inputs).toOption)
      ((l.codegen node ctx).toOption.bind fun fragment =>
        l.machine.run outer fragment.code frame) := by
  have htype := hb.frame.type node
  rw [Language.codegen, hreads.out_vars hfits hnode]
  show Option.Rel _ _ (l.machine.run outer (.call ⟨node.type, node.out_ports.map (·.name)⟩
    (input_args l ctx ++ param_args l node ctx) _) frame)
  have hglobals : ∀ name ∈ l.machine.globals ⟨node.type, node.out_ports.map (·.name)⟩,
      ∀ f ∈ frame :: outer, name ∉ f.locals := fun name hname => h.globals hname
  rw [Machine.run, guard, if_pos hglobals]
  show Option.Rel _ _ ((l.machine.eval_args (frame :: outer)
    (input_args l ctx ++ param_args l node ctx)).bind _)
  refine bind (hreads.args hfits hb hnode h) fun inputs values _ _ hvalues => ?_
  rw [dispatch_eq l (by rw [htype, hd]) (by rw [htype]; exact hplain), htype]
  show Option.Rel _ _ ((l.machine.apply _ values).bind _)
  show Option.Rel _ _ (((l.client node.type).bind fun client => _).bind _)
  rw [Option.bind_assoc]
  refine bind_same fun client _ => ?_
  -- the function is called with the same values
  have hfun : (fun name => (inputs.get? name).getD (absent_input l.runtime node.type name)) =
      fun name => (values.lookup (.input name)).getD (absent_input l.runtime node.type name) :=
    funext hvalues.1
  have hparams : (fun name => ((f node).param_values.get? name).map l.literal) =
      fun name => values.lookup (.param name) := funext hvalues.2
  rw [Language.behaviour, htype, hfun, hparams, hb.frame.out_ports]
  cases l.function node.type
    (fun name => (values.lookup (.input name)).getD (absent_input l.runtime node.type name))
    (fun name => values.lookup (.param name)) client with
  | error e => exact .none
  | ok out =>
      show Option.Rel _ (some _) (frame.assign _ ((node.out_ports.map (·.name)).map out))
      have hlength : ((frame.assign (node.out_ports.map (out_name st.name_map node))
          ((node.out_ports.map (·.name)).map out))).isSome = true :=
        Frame.assign_isSome_iff.mpr (by simp)
      obtain ⟨frame', hframe'⟩ := Option.isSome_iff_exists.mp hlength
      rw [hframe']
      refine .some (hfits.assigned hnode (Frame.Kept.refl _ _) hframe' fun i port hport => ?_)
      have hmem := List.mem_of_getElem? hport
      rw [get?_ofList_map (hfits.sound.tidy hnode).out_names,
        Dict.find?_key (hfits.sound.tidy hnode).out_names hmem, Option.map_some,
        List.getElem?_map, List.getElem?_map, hport]
      rfl

end Results

end EmergentFlow.Program
