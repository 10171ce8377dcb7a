import EmergentFlow.Codegen.ProgramNames
import EmergentFlow.Codegen.Rejection
import EmergentFlow.Lib.Together

/-!
# Codegen — ProgramStep

One node, called by the executor and run as its fragment. The variables of the
OUT ports hold the results so far; the fragment reads from them what the executor
binds to the IN ports, and assigns what the node returns.
-/

namespace EmergentFlow.Program

open Naming Scopes Together

variable {Sub V C ε : Type}

/-! ## What a node binds -/

/-- The value of one IN port. -/
def port_value (rt : Runtime V) (g : Graph Sub) (w : WiringMap)
    (seeds : Dict (String × String) V) (results : Results V) (node : Node Sub) (port : Port) :
    Except LookupFailure V := do
  let sources ← Checks.require (w.upstream ⟨node.id, port.id⟩) (.in_port node.id port.id)
  match port.cardinality, seeds.get? (node.id, port.name), sources with
  | .MANY, some value, _ => pure value
  | .MANY, none, sources => do
      let values ← sources.mapM (g.source_value results)
      pure (rt.list_value values)
  | .ONE, seed, [] => pure (seed.getD rt.none_value)
  | .ONE, _, [src] => g.source_value results src
  | .ONE, _, sources => .error (.source_count node.id port.name sources.length)

theorem bind_input_eq (rt : Runtime V) (g : Graph Sub) (w : WiringMap)
    (seeds : Dict (String × String) V) (results : Results V) (node : Node Sub)
    (inputs : Dict String V) (port : Port) :
    bind_input rt g w seeds results node inputs port =
      (port_value rt g w seeds results node port).map (inputs.set port.name) := by
  rw [bind_input, port_value]
  generalize w.upstream ⟨node.id, port.id⟩ = upstream
  generalize seeds.get? (node.id, port.name) = seed
  generalize port.cardinality = cardinality
  rcases upstream with _ | sources
  · rfl
  rcases cardinality with _ | _
  · rcases sources with _ | ⟨src, _ | _⟩
    · rfl
    · show (g.source_value results src >>= _) = (g.source_value results src).map _
      cases g.source_value results src <;> rfl
    · rfl
  · rcases seed with _ | value
    · show (sources.mapM (g.source_value results) >>= _) =
        Except.map _ (sources.mapM (g.source_value results) >>= _)
      cases sources.mapM (g.source_value results) <;> rfl
    · rfl

/-- The inputs hold the value of every IN port, when all have one. -/
theorem bind_inputs_toOption (rt : Runtime V) (g : Graph Sub) (w : WiringMap)
    (seeds : Dict (String × String) V) (results : Results V) (node : Node Sub) :
    (bind_inputs rt g w seeds results node).toOption = node.in_ports.foldlM (fun inputs port =>
      (port_value rt g w seeds results node port).toOption.map (inputs.set port.name))
        Dict.empty := by
  rw [bind_inputs, toOption_foldlM]
  congr 1
  funext inputs port
  rw [bind_input_eq]
  cases port_value rt g w seeds results node port <;> rfl

/-! ## Reading the variables -/

/-- The variables of the OUT ports hold the results so far. -/
def Holds (g : Graph Sub) (name_map : List OutBinding) (results : Results V) (frame : Frame V) :
    Prop :=
  ∀ {id node}, g.nodes.get? id = some node → ∀ port ∈ node.out_ports, ∀ {name},
    var_for name_map ⟨node.id, port.id⟩ = some name →
      frame.value? name = (results.get? node.id).bind (·.get? port.name)

/-- The ports of a node are told apart by their ids, those of a side by their names,
and its params by theirs. -/
structure Tidy (node : Node Sub) : Prop where
  port_ids : (node.ports.map (·.id)).Nodup
  in_names : (node.in_ports.map (·.name)).Nodup
  out_names : (node.out_ports.map (·.name)).Nodup
  param_names : (node.params.map (·.name)).Nodup

instance (node : Node Sub) : Decidable (Tidy node) :=
  decidable_of_iff ((node.ports.map (·.id)).Nodup ∧ (node.in_ports.map (·.name)).Nodup ∧
    (node.out_ports.map (·.name)).Nodup ∧ (node.params.map (·.name)).Nodup)
    ⟨fun h => ⟨h.1, h.2.1, h.2.2.1, h.2.2.2⟩, fun h => ⟨h.1, h.2, h.3, h.4⟩⟩

theorem Tidy.port_name {node : Node Sub} (h : Tidy node) {port : Port} (hport : port ∈ node.ports) :
    node.port_name port.id = some port.name := by
  rw [Node.port_name, Dict.find?_key h.port_ids hport, Option.map_some]

/-- The graph is valid, and its nodes are tidy. -/
structure Sound (g : Graph Sub) : Prop where
  valid : g.Valid
  tidy : ∀ {id node}, g.nodes.get? id = some node → Tidy node

/-- What feeds an IN port is an OUT port of a node. -/
theorem Sound.source {g : Graph Sub} (hs : Sound g) {target src : PortRef}
    (h : src ∈ g.sources target) : ∃ node, g.nodes.get? src.node_id = some node ∧
      node.id = src.node_id ∧ ∃ port ∈ node.out_ports, port.id = src.port_id := by
  obtain ⟨id, e, he, -, rfl⟩ := Graph.mem_sources.mp h
  have hout := hs.valid.source_out he
  rw [Graph.port_direction] at hout
  obtain ⟨node, hnode, hdir⟩ := Option.bind_eq_some_iff.mp hout
  obtain ⟨port, hport, hdirection⟩ := Option.map_eq_some_iff.mp hdir
  refine ⟨node, hnode, hs.valid.node_id hnode, port, ?_, ?_⟩
  · exact Node.mem_out_ports.mpr ⟨List.mem_reverse.mp (List.mem_of_find?_eq_some hport), hdirection⟩
  · simpa using List.find?_some hport

section Reading

variable {l : Language V C ε} {g : Graph Sub} {f : Node Sub → Node Sub} {w : WiringMap}
  {reserved : List String} {name_map : List OutBinding} {results : Results V} {frame : Frame V}

/-- The value of an OUT port is that of its variable. -/
theorem out_value_eq (outer : List (Frame V)) (hf : KeepsFrame f) (hs : Sound g)
    (hheld : Holds g name_map results frame)
    (hlocal : ∀ {ref name}, var_for name_map ref = some name → name ∈ frame.locals)
    {id : String} {node : Node Sub} (hnode : g.nodes.get? id = some node) {port : Port}
    (hport : port ∈ node.out_ports) {name : String}
    (hname : var_for name_map ⟨node.id, port.id⟩ = some name) :
    lookup (frame :: outer) name =
      ((g.map_nodes f).source_value results ⟨node.id, port.id⟩).toOption := by
  have hportname := (hs.tidy hnode).port_name (Node.mem_out_ports.mp hport).1
  have hvalue : ((g.map_nodes f).source_value results ⟨node.id, port.id⟩).toOption =
      (results.get? node.id).bind (·.get? port.name) := by
    rw [← hs.valid.node_id hnode] at hnode
    rw [Graph.source_value, Graph.source_port_name_map_nodes hf, Graph.source_port_name, hnode,
      Checks.require_some]
    show (Checks.require (node.port_name port.id) _ >>= fun name => results.value node.id name
      ).toOption = _
    rw [hportname, Checks.require_some]
    show (results.value node.id port.name).toOption = _
    rw [Results.value, toOption_bind, toOption_require]
    congr 1
    funext outputs
    exact toOption_require _ _
  rw [lookup_local (hlocal hname), hheld hnode port hport hname, hvalue]

/-- The value of a source is that of its variable. -/
theorem source_value_eq (outer : List (Frame V)) (hf : KeepsFrame f) (hs : Sound g)
    (hn : Named g reserved name_map) (hheld : Holds g name_map results frame)
    (hlocal : ∀ {ref name}, var_for name_map ref = some name → name ∈ frame.locals)
    {target src : PortRef} (hsrc : src ∈ g.sources target) :
    ∃ name, find_var name_map src = .ok name ∧ var_for name_map src = some name ∧
      lookup (frame :: outer) name = ((g.map_nodes f).source_value results src).toOption := by
  obtain ⟨node, hnode, hid, port, hport, hportid⟩ := hs.source hsrc
  obtain rfl : src = ⟨node.id, port.id⟩ := by rw [hid, hportid]
  obtain ⟨name, hname⟩ := hn.named hnode port hport
  refine ⟨name, by rw [find_var, hname, Checks.require_some], hname, ?_⟩
  exact out_value_eq outer hf hs hheld hlocal hnode hport hname

/-- What an IN port is bound to without a seed is read off the variables. -/
theorem in_expr_spec (hf : KeepsFrame f) (hs : Sound g) (hn : Named g reserved name_map)
    (hw : build_wiring_map g = .ok w) {id : String} {node : Node Sub}
    (hnode : g.nodes.get? id = some node) {port : Port} (hport : port ∈ node.in_ports) :
    ∃ text, in_expr name_map w node port = .ok text ∧
      ∀ {results : Results V} {frame : Frame V} (outer : List (Frame V))
        {seeds : Dict (String × String) V}, Holds g name_map results frame →
        (∀ {ref name}, var_for name_map ref = some name → name ∈ frame.locals) →
        seeds.get? (node.id, port.name) = none →
        l.machine.eval (frame :: outer) (read_expr l.runtime.none_value text) =
          (port_value l.runtime (g.map_nodes f) w seeds results node port).toOption := by
  obtain ⟨hupstream, hone⟩ := build_wiring_map_eq_ok hw hnode hport
  generalize hsources : g.sources ⟨node.id, port.id⟩ = sources at hupstream hone
  have hvar : ∀ src ∈ sources, ∃ name, find_var name_map src = .ok name ∧
      var_for name_map src = some name := by
    intro src hsrc
    obtain ⟨node', hnode', hid, port', hport', hportid⟩ := hs.source (hsources ▸ hsrc)
    obtain ⟨name, hname⟩ := hn.named hnode' port' hport'
    rw [hid, hportid] at hname
    exact ⟨name, by rw [find_var, hname, Checks.require_some], hname⟩
  rw [in_expr, hupstream, Checks.require_some]
  cases hcard : port.cardinality with
  | MANY =>
      -- the variables of all sources, as a list
      have hnames : sources.mapM (find_var name_map) =
          .ok (sources.map fun src => (var_for name_map src).getD "") := by
        refine Checks.mapM_eq_map fun src hsrc => ?_
        obtain ⟨name, hfind, hname⟩ := hvar src hsrc
        rw [hfind, hname, Option.getD_some]
      refine ⟨list_literal (sources.map fun src => (var_for name_map src).getD ""), ?_, ?_⟩
      · show (sources.mapM (find_var name_map) >>= _) = _
        rw [hnames]
        rfl
      · intro results frame outer seeds hheld hlocal hseed
        rw [read_list, port_value, hupstream, hcard, hseed]
        · show ((sources.map _).mapM (lookup (frame :: outer))).map l.runtime.list_value =
            (sources.mapM ((g.map_nodes f).source_value results) >>= _).toOption
          rw [toOption_bind, toOption_mapM, List.mapM_map]
          have hsame : sources.mapM (lookup (frame :: outer) ∘ fun src =>
              (var_for name_map src).getD "") =
              sources.mapM fun src => ((g.map_nodes f).source_value results src).toOption := by
            refine mapM_congr fun src hsrc => ?_
            obtain ⟨name, -, hname, hlookup⟩ := source_value_eq outer hf hs hn hheld
              hlocal (hsources ▸ hsrc)
            rw [Function.comp_apply, hname]
            exact hlookup
          rw [hsame]
          cases sources.mapM fun src => ((g.map_nodes f).source_value results src).toOption <;> rfl
        · intro name hname
          obtain ⟨src, hsrc, rfl⟩ := List.mem_map.mp hname
          obtain ⟨name, -, hname⟩ := hvar src hsrc
          rw [hname]
          exact hn.identifier hname
  | ONE =>
      rcases sources with _ | ⟨src, _ | ⟨second, rest⟩⟩
      · refine ⟨"None", rfl, ?_⟩
        intro results frame outer seeds _ _ hseed
        rw [read_none, port_value, hupstream, hcard, hseed]
        rfl
      · obtain ⟨name, hfind, hname⟩ := hvar src List.mem_cons_self
        refine ⟨name, hfind, ?_⟩
        intro results frame outer seeds hheld hlocal hseed
        rw [read_identifier _ (hn.identifier hname), port_value, hupstream, hcard, hseed]
        obtain ⟨name', -, hname', hlookup⟩ := source_value_eq outer hf hs hn hheld
          hlocal (hsources ▸ List.mem_cons_self)
        rw [hname, Option.some.injEq] at hname'
        exact hname' ▸ hlookup
      · have := hone hcard
        simp at this

end Reading

/-! ## The binding context -/

section Context

variable {name_map : List OutBinding} {w : WiringMap} {node : Node Sub}

/-- What the loop over the ports of a node leaves in the context. -/
structure Bound (name_map : List OutBinding) (w : WiringMap) (node : Node Sub) (ports : List Port)
    (ctx ctx' : CodegenContext) : Prop where
  params : ctx'.param_exprs = ctx.param_exprs
  in_var : ((ports.filter (·.direction = .IN)).map (·.name)).Nodup →
    ∀ port ∈ ports.filter (·.direction = .IN), ∀ text, in_expr name_map w node port = .ok text →
      ctx'.in_vars.get? port.name = some text
  in_other : ∀ name ∉ (ports.filter (·.direction = .IN)).map (·.name),
    ctx'.in_vars.get? name = ctx.in_vars.get? name
  out_var : ((ports.filter (·.direction = .OUT)).map (·.name)).Nodup →
    ∀ port ∈ ports.filter (·.direction = .OUT),
      ctx'.out_vars.get? port.name = var_for name_map ⟨node.id, port.id⟩
  out_other : ∀ name ∉ (ports.filter (·.direction = .OUT)).map (·.name),
    ctx'.out_vars.get? name = ctx.out_vars.get? name

theorem bound_foldlM {ports : List Port} (ctx : CodegenContext)
    (hin : ∀ port ∈ ports, port.direction = .IN → ∃ text, in_expr name_map w node port = .ok text)
    (hout : ∀ port ∈ ports, port.direction = .OUT →
      ∃ name, var_for name_map ⟨node.id, port.id⟩ = some name) :
    ∃ ctx', ports.foldlM (bind_context name_map w node) ctx = .ok ctx' ∧
      Bound name_map w node ports ctx ctx' := by
  induction ports generalizing ctx with
  | nil => exact ⟨ctx, rfl, rfl, by simp, by simp, by simp, by simp⟩
  | cons port ports ih =>
      rw [List.forall_mem_cons] at hin hout
      rw [List.foldlM_cons, bind_context]
      cases hdir : port.direction with
      | IN =>
          obtain ⟨text, htext⟩ := hin.1 hdir
          obtain ⟨ctx', hfold, hb⟩ :=
            ih { ctx with in_vars := ctx.in_vars.set port.name text } hin.2 hout.2
          refine ⟨ctx', by rw [htext]; exact hfold, hb.params, ?_, ?_, ?_, ?_⟩
          · rw [List.filter_cons_of_pos (by simp [hdir]), List.map_cons, List.nodup_cons,
              List.forall_mem_cons]
            intro hnodup
            refine ⟨fun text' htext' => ?_, hb.in_var hnodup.2⟩
            rw [htext, Except.ok.injEq] at htext'
            rw [hb.in_other _ hnodup.1, Dict.get?_set_self, htext']
          · rw [List.filter_cons_of_pos (by simp [hdir]), List.map_cons]
            intro name hname
            rw [List.mem_cons, not_or] at hname
            rw [hb.in_other _ hname.2, Dict.get?_set_ne _ _ (Ne.symm hname.1)]
          · rw [List.filter_cons_of_neg (by simp [hdir])]
            exact hb.out_var
          · rw [List.filter_cons_of_neg (by simp [hdir])]
            exact hb.out_other
      | OUT =>
          obtain ⟨var, hvar⟩ := hout.1 hdir
          obtain ⟨ctx', hfold, hb⟩ :=
            ih { ctx with out_vars := ctx.out_vars.set port.name var } hin.2 hout.2
          refine ⟨ctx', by rw [find_var, hvar]; exact hfold, hb.params, ?_, ?_, ?_, ?_⟩
          · rw [List.filter_cons_of_neg (by simp [hdir])]
            exact hb.in_var
          · rw [List.filter_cons_of_neg (by simp [hdir])]
            exact hb.in_other
          · rw [List.filter_cons_of_pos (by simp [hdir]), List.map_cons, List.nodup_cons,
              List.forall_mem_cons]
            intro hnodup
            refine ⟨?_, hb.out_var hnodup.2⟩
            rw [hb.out_other _ hnodup.1, Dict.get?_set_self, hvar]
          · rw [List.filter_cons_of_pos (by simp [hdir]), List.map_cons]
            intro name hname
            rw [List.mem_cons, not_or] at hname
            rw [hb.out_other _ hname.2, Dict.get?_set_ne _ _ (Ne.symm hname.1)]

/-- An optional IN port that a node lacks. -/
def optional (name : String) (spec : PortSpec) : Bool :=
  spec.direction = .IN && !spec.required && spec.name = name

theorem get?_backfill (specs : List PortSpec) (in_vars : Dict String String) (name : String) :
    (specs.foldl backfill in_vars).get? name = (in_vars.get? name).or
      ((specs.find? (optional name)).map fun spec =>
        if spec.cardinality = .MANY then "[]" else "None") := by
  induction specs generalizing in_vars with
  | nil => simp
  | cons spec specs ih =>
      rw [List.foldl_cons, ih, backfill, List.find?_cons]
      cases hopt : optional name spec with
      | true =>
          simp only [optional, Bool.and_eq_true, decide_eq_true_eq, Bool.not_eq_true'] at hopt
          obtain ⟨⟨hdir, hrequired⟩, rfl⟩ := hopt
          cases hget : in_vars.get? spec.name with
          | some text =>
              have hthere : in_vars.contains spec.name = true :=
                (Dict.contains_iff _).mpr ⟨text, hget⟩
              rw [if_pos (.inr (.inr hthere)), hget]
              rfl
          | none =>
              have hnot : ¬ (spec.direction ≠ .IN ∨ spec.required = true ∨
                  in_vars.contains spec.name = true) := by
                simp [hdir, hrequired, Dict.contains, hget]
              rw [if_neg hnot, Dict.get?_set_self]
              rfl
      | false =>
          split
          · rfl
          · rename_i hfill
            simp only [ne_eq, not_or, not_not, Bool.not_eq_true] at hfill
            have hne : spec.name ≠ name := by
              rintro rfl
              simp [optional, hfill.1, hfill.2.1] at hopt
            rw [Dict.get?_set_ne _ _ hne]

/-- A dangling port that the enclosing function supplies is read from there. -/
theorem get?_supply (ctx : CodegenContext) (overrides : Dict (String × String) String)
    (id name : String) : (ctx.supply overrides id).in_vars.get? name =
      (overrides.get? (id, name)).or (ctx.in_vars.get? name) := by
  have hours : ∀ e ∈ overrides.entries.filter (·.1.1 = id), e.1 = (id, e.1.2) := by
    intro e he
    have hid := (List.mem_filter.mp he).2
    rw [decide_eq_true_eq] at hid
    rw [← hid]
  have hnodup : ((overrides.entries.filter (·.1.1 = id)).map (·.1.2)).Nodup := by
    have hkeys : ((overrides.entries.filter (·.1.1 = id)).map (·.1)).Nodup :=
      overrides.nodup.sublist (List.filter_sublist.map _)
    rw [List.nodup_map_iff_inj_on (List.Nodup.of_map _ hkeys)]
    intro e he e' he' heq
    refine List.inj_on_of_nodup_map hkeys he he' ?_
    rw [hours e he, hours e' he', heq]
  rw [CodegenContext.supply, get?_foldl_set _ hnodup]
  congr 1
  cases hget : overrides.get? (id, name) with
  | some p =>
      have hmem : ((id, name), p) ∈ overrides.entries.filter (·.1.1 = id) :=
        List.mem_filter.mpr ⟨(Dict.mem_entries_iff _).mpr hget, by simp⟩
      have hfind := Dict.find?_key hnodup hmem
      rw [hfind]
      rfl
  | none =>
      rw [Option.map_eq_none_iff, Dict.find?_key_eq_none]
      intro hmem
      obtain ⟨e, he, rfl⟩ := List.mem_map.mp hmem
      have hthere := (Dict.mem_entries_iff _).mp (List.mem_filter.mp he).1
      rw [hours e he, hget] at hthere
      cases hthere

theorem get?_embed (ctx : CodegenContext) (refs : Dict String String) (name : String) :
    (ctx.embed refs).param_exprs.get? name = (refs.get? name).or (ctx.param_exprs.get? name) := by
  rw [CodegenContext.embed, get?_foldl_set _ refs.nodup, find?_entries]

/-- The references of a node, each with the keyword of the graph param. -/
theorem param_expr_refs_spec {kwargs : Dict String String}
    (hnodup : (node.params.map (·.name)).Nodup)
    {refs : Dict String String} (h : param_expr_refs kwargs node = .ok refs) :
    (∀ param ∈ node.params, refs.get? param.name = param.ref.bind kwargs.get?) ∧
      (∀ param ∈ node.params, ∀ ref, param.ref = some ref → ref ∈ kwargs.keys) ∧
        ∀ name ∉ node.params.map (·.name), refs.get? name = none := by
  have hfold : ∀ (l : List Param) (start : Dict String String), (l.map (·.name)).Nodup →
      (∀ param ∈ l, start.get? param.name = none) →
      ∀ refs, l.foldlM (param_expr_ref kwargs node.id) start = .ok refs →
        (∀ param ∈ l, refs.get? param.name = param.ref.bind kwargs.get?) ∧
          (∀ param ∈ l, ∀ ref, param.ref = some ref → ref ∈ kwargs.keys) ∧
            ∀ name ∉ l.map (·.name), refs.get? name = start.get? name := by
    intro l
    induction l with
    | nil =>
        intro start _ _ refs hrefs
        cases hrefs
        simp
    | cons param l ih =>
        intro start hnodup hnew refs hrefs
        rw [List.map_cons, List.nodup_cons] at hnodup
        rw [List.forall_mem_cons] at hnew
        rw [List.foldlM_cons] at hrefs
        obtain ⟨mid, hmid, hrefs⟩ := Checks.bind_eq_ok.mp hrefs
        -- what one round does to the map
        have hround : mid.get? param.name = param.ref.bind kwargs.get? ∧
            (∀ ref, param.ref = some ref → ref ∈ kwargs.keys) ∧
              ∀ name, param.name ≠ name → mid.get? name = start.get? name := by
          rw [param_expr_ref] at hmid
          cases href : param.ref with
          | none =>
              rw [href] at hmid
              cases hmid
              exact ⟨hnew.1, by simp, fun _ _ => rfl⟩
          | some ref =>
              rw [href] at hmid
              obtain ⟨kwarg, hkwarg, hset⟩ := Checks.bind_eq_ok.mp hmid
              rw [Checks.require_eq_ok] at hkwarg
              cases hset
              refine ⟨by rw [Dict.get?_set_self, Option.bind_some, hkwarg], ?_, ?_⟩
              · rintro ref' heq
                cases heq
                exact (Dict.mem_keys_iff _).mpr ⟨kwarg, hkwarg⟩
              · exact fun name hne => Dict.get?_set_ne _ _ hne
        have hne : ∀ other ∈ l, param.name ≠ other.name := fun other hother heq =>
          hnodup.1 (heq ▸ List.mem_map_of_mem hother)
        obtain ⟨hfound, hkeys, hkept⟩ := ih mid hnodup.2
          (fun other hother => by rw [hround.2.2 _ (hne other hother), hnew.2 other hother])
          refs hrefs
        refine ⟨?_, ?_, ?_⟩
        · rw [List.forall_mem_cons]
          exact ⟨by rw [hkept _ hnodup.1, hround.1], hfound⟩
        · rw [List.forall_mem_cons]
          exact ⟨hround.2.1, hkeys⟩
        · intro name hname
          rw [List.map_cons, List.mem_cons, not_or] at hname
          rw [hkept _ hname.2, hround.2.2 _ (Ne.symm hname.1)]
  exact hfold node.params Dict.empty hnodup (fun _ _ => rfl) refs h

end Context

end EmergentFlow.Program
