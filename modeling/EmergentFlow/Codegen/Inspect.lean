import EmergentFlow.Codegen.ProgramLaw

/-!
# Codegen — Inspect

The variable inspector (`codegen/inspect.py`): a run told node by node, the ports
with the variables that the compiled program has for them. What it shows at a
variable is what the variable holds when `main` returns.
-/

namespace EmergentFlow.Program

open Naming Scopes Together

variable {Sub V C ε P : Type}

/-! ## The inspector -/

/-- `VarBinding`. -/
structure VarBinding (P : Type) where
  var_name : String
  port_name : String
  payload : P
  deriving DecidableEq, Repr

/-- `StepTrace`. -/
structure StepTrace (P : Type) where
  step : Nat
  node_id : String
  node_label : String
  status : String := "ok"
  inputs : List (VarBinding P) := []
  outputs : List (VarBinding P) := []
  deriving DecidableEq, Repr

inductive InspectFailure (ε : Type) where
  | execution (error : ExecutionError ε)
  | codegen (error : CodegenError)
  | binding (error : BindingError)
  | lookup (failure : LookupFailure)

/-- `_resolve_input_value`. -/
def resolve_input_value (rt : Runtime V) (g : Graph Sub) (w : WiringMap) (results : Results V)
    (node : Node Sub) (port : Port) : Except LookupFailure V := do
  let sources ← Checks.require (w.upstream ⟨node.id, port.id⟩) (.in_port node.id port.id)
  match port.cardinality, sources with
  | .MANY, sources => do
      let values ← sources.mapM (g.source_value results)
      pure (rt.list_value values)
  | .ONE, [] => pure rt.none_value
  | .ONE, src :: _ => g.source_value results src

section Trace

variable (rt : Runtime V) (to_payload : V → P) (g : Graph Sub) (w : WiringMap)
  (results : Results V) (node : Node Sub) (ctx : CodegenContext)

/-- The entry of an IN port. -/
def in_binding (port : Port) : Except (InspectFailure ε) (VarBinding P) := do
  let var_name ← (Checks.require (ctx.in_vars.get? port.name) (.in_name port.name)).mapError
    .binding
  let value ← (resolve_input_value rt g w results node port).mapError .lookup
  pure ⟨var_name, port.name, to_payload value⟩

/-- The entry of an OUT port. -/
def out_binding (port : Port) : Except (InspectFailure ε) (VarBinding P) := do
  let var_name ← (Checks.require (ctx.out_vars.get? port.name) (.out_name port.name)).mapError
    .binding
  let value ← (results.value node.id port.name).mapError .lookup
  pure ⟨var_name, port.name, to_payload value⟩

/-- One round over the ports of a node. -/
def trace_port (t : StepTrace P) (port : Port) : Except (InspectFailure ε) (StepTrace P) :=
  match port.direction with
  | .IN => do
      let b ← in_binding rt to_payload g w results node ctx port
      pure { t with inputs := t.inputs ++ [b] }
  | .OUT => do
      let b ← out_binding to_payload results node ctx port
      pure { t with outputs := t.outputs ++ [b] }

end Trace

/-- `node.label or node.type`. -/
def shown_label (node : Node Sub) : String :=
  if node.label.getD "" = "" then node.type else node.label.getD ""

/-- The trace of one node, the `step`-th of the run. -/
def Language.trace_node (l : Language V C ε) (to_payload : V → P) (g : Graph Sub) (w : WiringMap)
    (results : Results V) (id : String) (step : Nat) :
    Except (InspectFailure ε) (StepTrace P) := do
  let node ← Checks.require (g.nodes.get? id) (.lookup (.node id))
  let ctx ← (l.context g [] w node).mapError .binding
  node.ports.foldlM (trace_port l.runtime to_payload g w results node ctx)
    { step, node_id := node.id, node_label := shown_label node }

/-- `build_step_traces`. The graph is run once, with its params as stored. -/
def Language.build_step_traces (l : Language V C ε) (v : Validator) (to_payload : V → P) (n : Nat)
    (g : Graph (Nested n)) : Except (InspectFailure ε) (List (StepTrace P)) := do
  let results ← (execute l.runtime v.passes (fun _ => l.behaviour) l.clients n g none).mapError
    .execution
  let w ← (build_wiring_map g).mapError .codegen
  let order ← (topological_sort g).mapError .codegen
  order.zipIdx.mapM fun p => l.trace_node to_payload g w results p.1 p.2

/-! ## What it shows -/

/-- The entry of an IN port has the text that the compiler reads there, and what the text
comes to in the frame. -/
def ShowsIn (l : Language V C ε) (to_payload : V → P) (ctx : CodegenContext) (frame : Frame V)
    (port : Port) (b : VarBinding P) : Prop :=
  ctx.in_vars.get? port.name = some b.var_name ∧ b.port_name = port.name ∧
    (l.machine.eval [frame] (read_expr l.runtime.none_value b.var_name)).map to_payload =
      some b.payload

/-- The entry of an OUT port has the variable that the compiler assigns there, and what it
holds in the frame. -/
def ShowsOut (to_payload : V → P) (ctx : CodegenContext) (frame : Frame V) (port : Port)
    (b : VarBinding P) : Prop :=
  ctx.out_vars.get? port.name = some b.var_name ∧ b.port_name = port.name ∧
    (lookup [frame] b.var_name).map to_payload = some b.payload

/-- The trace of a node has an entry for each of its ports. -/
structure Shows (l : Language V C ε) (to_payload : V → P) (g : Graph Sub) (w : WiringMap)
    (frame : Frame V) (node : Node Sub) (t : StepTrace P) : Prop where
  node_id : t.node_id = node.id
  label : t.node_label = shown_label node
  entries : ∃ ctx, l.context g [] w node = .ok ctx ∧
    List.Forall₂ (ShowsIn l to_payload ctx frame) node.in_ports t.inputs ∧
      List.Forall₂ (ShowsOut to_payload ctx frame) node.out_ports t.outputs

/-- The traces are those of the nodes in topological order, numbered from 0. -/
def ShowsAll (l : Language V C ε) (to_payload : V → P) (g : Graph Sub) (frame : Frame V)
    (traces : List (StepTrace P)) : Prop :=
  ∃ w order, build_wiring_map g = .ok w ∧ topological_sort g = .ok order ∧
    List.Forall₂ (fun p t => t.step = p.2 ∧ ∃ node, g.nodes.get? p.1 = some node ∧
      Shows l to_payload g w frame node t) order.zipIdx traces

section Trace

variable {rt : Runtime V} {to_payload : V → P} {g : Graph Sub} {w : WiringMap}
  {results : Results V} {node : Node Sub} {ctx : CodegenContext}

/-- The ports of each side have their entries, in the order of the node. -/
theorem trace_ports {p q : Port → VarBinding P → Prop} {ports : List Port} (t : StepTrace P)
    (hin : ∀ port ∈ ports, port.direction = .IN →
      ∃ b, in_binding (ε := ε) rt to_payload g w results node ctx port = .ok b ∧ p port b)
    (hout : ∀ port ∈ ports, port.direction = .OUT →
      ∃ b, out_binding (ε := ε) to_payload results node ctx port = .ok b ∧ q port b) :
    ∃ ins outs, ports.foldlM (trace_port (ε := ε) rt to_payload g w results node ctx) t =
        .ok { t with inputs := t.inputs ++ ins, outputs := t.outputs ++ outs } ∧
      List.Forall₂ p (ports.filter (·.direction = .IN)) ins ∧
        List.Forall₂ q (ports.filter (·.direction = .OUT)) outs := by
  induction ports generalizing t with
  | nil => exact ⟨[], [], by simp [pure, Except.pure], .nil, .nil⟩
  | cons port ports ih =>
      rw [List.forall_mem_cons] at hin hout
      cases hdir : port.direction with
      | IN =>
          obtain ⟨b, hb, hp⟩ := hin.1 hdir
          obtain ⟨ins, outs, hfold, hins, houts⟩ :=
            ih { t with inputs := t.inputs ++ [b] } hin.2 hout.2
          refine ⟨b :: ins, outs, ?_, by simpa [hdir] using ⟨hp, hins⟩, by simpa [hdir] using houts⟩
          rw [List.foldlM_cons, trace_port, hdir, hb]
          rw [List.append_assoc] at hfold
          exact hfold
      | OUT =>
          obtain ⟨b, hb, hq⟩ := hout.1 hdir
          obtain ⟨ins, outs, hfold, hins, houts⟩ :=
            ih { t with outputs := t.outputs ++ [b] } hin.2 hout.2
          refine ⟨ins, b :: outs, ?_, by simpa [hdir] using hins, by simpa [hdir] using ⟨hq, houts⟩⟩
          rw [List.foldlM_cons, trace_port, hdir, hb]
          rw [List.append_assoc] at hfold
          exact hfold

end Trace

section Reached

variable {l : Language V C ε} {to_payload : V → P} {n : Nat} {g : Graph (Nested n)}
  {overrides : Dict String ParamValue} {w : WiringMap} {order : List String} {results : Results V}
  {frame : Frame V} {id : String} {node : Node (Nested n)} {port : Port}

/-- Every OUT port has a result. -/
theorem Reached.value (h : Reached l g overrides w order results frame)
    (hnode : g.nodes.get? id = some node) (hport : port ∈ node.out_ports) :
    ∃ value, results.value node.id port.name = .ok value ∧
      (results.get? node.id).bind (·.get? port.name) = some value := by
  have hv : g.Valid := h.fits.sound.valid
  have hkey : node.id ∈ g.nodes.keys := by
    rw [hv.node_id hnode]
    exact (Dict.mem_keys_iff _).mpr ⟨node, hnode⟩
  obtain ⟨outputs, houtputs⟩ := Option.isSome_iff_exists.mp (h.all _ hkey)
  obtain ⟨value, hvalue⟩ :=
    Option.isSome_iff_exists.mp (h.holds.complete hnode houtputs port hport)
  refine ⟨value, ?_, by simp [houtputs, hvalue]⟩
  rw [Results.value, houtputs, Checks.require_some]
  show Checks.require (outputs.get? port.name) _ = _
  rw [hvalue, Checks.require_some]

/-- Every source of an IN port has a value. -/
theorem Reached.source_value (h : Reached l g overrides w order results frame)
    {target src : PortRef} (hsrc : src ∈ g.sources target) :
    ∃ value, g.source_value results src = .ok value := by
  have hs : Sound g := h.fits.sound
  obtain ⟨node, hnode, hid, port, hport, hportid⟩ := hs.source hsrc
  obtain ⟨value, hvalue, -⟩ := h.value hnode hport
  have hname := (hs.tidy hnode).port_name (Node.mem_out_ports.mp hport).1
  refine ⟨value, ?_⟩
  rw [Graph.source_value, Graph.source_port_name, hnode, Checks.require_some]
  show (Checks.require (node.port_name src.port_id) _ >>= _) = _
  rw [← hportid, hname, Checks.require_some, ← hid]
  exact hvalue

/-- The inspector reads an IN port as the executor bound it. -/
theorem Reached.resolve_input_value (h : Reached l g overrides w order results frame)
    {f : Node (Nested n) → Node (Nested n)} (hf : KeepsFrame f)
    (hnode : g.nodes.get? id = some node) (hport : port ∈ node.in_ports) :
    ∃ value, Program.resolve_input_value l.runtime g w results node port = .ok value ∧
      port_value l.runtime (g.map_nodes f) w Dict.empty results node port = .ok value := by
  have hw : build_wiring_map g = .ok w := h.fits.wired
  obtain ⟨hupstream, hone⟩ := build_wiring_map_eq_ok hw hnode hport
  have hsame : (g.map_nodes f).source_value results = g.source_value results := by
    ext1 src
    rw [Graph.source_value, Graph.source_port_name_map_nodes hf]
    rfl
  have hsource : ∀ src ∈ g.sources ⟨node.id, port.id⟩, ∃ value,
      g.source_value results src = .ok value := fun _ hsrc => h.source_value hsrc
  rw [Program.resolve_input_value, port_value, hupstream, Checks.require_some, hsame]
  generalize g.sources ⟨node.id, port.id⟩ = sources at hone hsource
  cases hcard : port.cardinality with
  | MANY =>
      obtain ⟨values, hvalues⟩ := Checks.mapM_exists hsource
      refine ⟨l.runtime.list_value values, ?_, ?_⟩
      · show (sources.mapM (g.source_value results) >>= _) = _
        rw [hvalues]
        rfl
      · show (sources.mapM (g.source_value results) >>= _) = _
        rw [hvalues]
        rfl
  | ONE =>
      rcases sources with _ | ⟨src, _ | ⟨second, rest⟩⟩
      · exact ⟨_, rfl, rfl⟩
      · obtain ⟨value, hvalue⟩ := hsource src List.mem_cons_self
        exact ⟨value, hvalue, hvalue⟩
      · have := hone hcard
        simp at this

/-- The trace of a node. -/
theorem Reached.trace_node (h : Reached l g overrides w order results frame)
    (hnode : g.nodes.get? id = some node) (step : Nat) :
    ∃ t, l.trace_node (ε := ε) to_payload g w results id step = .ok t ∧ t.step = step ∧
      Shows l to_payload g w frame node t := by
  obtain ⟨ctx, refs, hctx, -, hreads⟩ := h.fits.context (keepsFrame_bake_node
    (resolved g overrides) n) hnode
  have hctx : l.context g [] w node = .ok ctx := hctx
  -- the graph of `main` is in no function, and reads its variables alone
  have hin_vars : ∀ name, ((ctx.supply (top l g w overrides).overrides node.id).embed refs
      ).in_vars.get? name = ctx.in_vars.get? name := fun name => by
    rw [CodegenContext.embed, get?_supply]
    rfl
  have hin : ∀ port ∈ node.ports, port.direction = .IN →
      ∃ b, in_binding (ε := ε) l.runtime to_payload g w results node ctx port = .ok b ∧
        ShowsIn l to_payload ctx frame port b := by
    intro port hport hdir
    have hport : port ∈ node.in_ports := Node.mem_in_ports.mpr ⟨hport, hdir⟩
    obtain ⟨text, htext, hread⟩ := hreads.in_var port hport
    obtain ⟨value, hvalue, hbound⟩ :=
      h.resolve_input_value (keepsFrame_bake_node (resolved g overrides) n) hnode hport
    rw [hin_vars] at htext
    refine ⟨⟨text, port.name, to_payload value⟩, ?_, htext, rfl, ?_⟩
    · rw [in_binding, htext, hvalue]
      rfl
    · have heval : l.machine.eval [frame] (read_expr l.runtime.none_value text) =
          (port_value l.runtime (g.map_nodes _) w Dict.empty results node port).toOption :=
        hread h.holds
      rw [heval, hbound]
      rfl
  have hout : ∀ port ∈ node.ports, port.direction = .OUT →
      ∃ b, out_binding (ε := ε) to_payload results node ctx port = .ok b ∧
        ShowsOut to_payload ctx frame port b := by
    intro port hport hdir
    have hport : port ∈ node.out_ports := Node.mem_out_ports.mpr ⟨hport, hdir⟩
    obtain ⟨value, hvalue, hresult⟩ := h.value hnode hport
    have hvar := h.fits.var_for_out hnode hport
    have hget : ctx.out_vars.get? port.name = _ := (hreads.out_var port hport).trans hvar
    refine ⟨⟨_, port.name, to_payload value⟩, ?_, hget, rfl, ?_⟩
    · rw [out_binding, hget, hvalue]
      rfl
    · show (lookup [frame] (out_name (top l g w overrides).name_map node port)).map _ = _
      rw [lookup_local (h.holds.locals hvar), h.holds.holds hnode port hport hvar, hresult]
      rfl
  obtain ⟨ins, outs, hfold, hins, houts⟩ :=
    trace_ports { step, node_id := node.id, node_label := shown_label node } hin hout
  have htrace : l.trace_node (ε := ε) to_payload g w results id step = .ok {
      step, node_id := node.id, node_label := shown_label node
      inputs := ins, outputs := outs } := by
    rw [Language.trace_node, hnode, Checks.require_some]
    show ((l.context g [] w node).mapError _ >>= _) = _
    rw [hctx]
    exact hfold
  exact ⟨_, htrace, rfl, rfl, rfl, ctx, hctx, hins, houts⟩

/-- The traces of a run. -/
theorem Reached.traces (h : Reached l g overrides w order results frame) :
    ∃ traces, order.zipIdx.mapM (fun p => l.trace_node (ε := ε) to_payload g w results p.1 p.2) =
        .ok traces ∧ ShowsAll l to_payload g frame traces := by
  have hperm := (topological_sort_eq_ok h.fits.sound.valid h.order).1
  obtain ⟨traces, htraces, hforall⟩ := mapM_related
    (R := fun p t => t.step = p.2 ∧ ∃ node, g.nodes.get? p.1 = some node ∧
      Shows l to_payload g w frame node t)
    (f := fun p => l.trace_node (ε := ε) to_payload g w results p.1 p.2) (l := order.zipIdx)
    fun p hp => by
      have hid : p.1 ∈ g.nodes.keys := hperm.mem_iff.mp (List.fst_mem_of_mem_zipIdx hp)
      obtain ⟨node, hnode⟩ := (Dict.mem_keys_iff _).mp hid
      obtain ⟨t, ht, hstep, hshows⟩ := h.trace_node hnode p.2
      exact ⟨t, ht, hstep, node, hnode, hshows⟩
  exact ⟨traces, htraces, w, order, h.fits.wired, h.order, hforall⟩

end Reached

end EmergentFlow.Program
