import EmergentFlow.Codegen.DeclarativeLaw

/-!
# Codegen — Declarative Run

What the emitted `forward` computes. The attribute names are distinct, so that each call
reaches its own layer, and the layers run in the order of the path, unless an attribute is
hidden by one that the class has already or the input is named `self`.
-/

namespace EmergentFlow.Declarative

variable {Sub : Type} {g : Graph Sub}

/-! ## Attribute names -/

theorem attr_name_notMem (base : String) (used : List String) : attr_name base used ∉ used := by
  intro h
  exact Probe.firstFree_notMem (attr_candidate_injective base) used.toFinset 0
    (List.mem_toFinset.mpr h)

/-- A base name that no layer has is taken as it is. -/
theorem attr_name_of_notMem {base : String} {used : List String} (h : base ∉ used) :
    attr_name base used = base := by
  rw [attr_name, Probe.firstFree, dif_neg]
  · rfl
  · rwa [List.mem_toFinset]

theorem assign_attr_names_fst (base_of : String → String) (used order : List String) :
    (assign_attr_names base_of used order).map Prod.fst = order := by
  induction order generalizing used with
  | nil => rfl
  | cons id order ih => rw [assign_attr_names, List.map_cons, ih]

theorem assign_attr_names_nodup (base_of : String → String) (used order : List String) :
    ((assign_attr_names base_of used order).map Prod.snd).Nodup ∧
      ∀ a ∈ assign_attr_names base_of used order, a.2 ∉ used := by
  induction order generalizing used with
  | nil => exact ⟨List.nodup_nil, fun a ha => absurd ha List.not_mem_nil⟩
  | cons id order ih =>
      obtain ⟨hnodup, hfresh⟩ := ih (attr_name (base_of id) used :: used)
      rw [assign_attr_names, List.map_cons, List.nodup_cons, List.forall_mem_cons]
      refine ⟨⟨fun hmem => ?_, hnodup⟩, attr_name_notMem _ _, fun a ha hused => ?_⟩
      · obtain ⟨a, ha, heq⟩ := List.mem_map.mp hmem
        exact hfresh a ha (heq ▸ List.mem_cons_self)
      · exact hfresh a ha (List.mem_cons_of_mem _ hused)

/-! ## Running `forward` -/

/-- Statements that read and write one variable thread its value through the calls. -/
theorem foldlM_run {V : Type} (call : String → V → Option V) (cur : String) (attrs : List String)
    (locals : String → Option V) :
    ((attrs.map fun attr => (⟨cur, attr, cur⟩ : CallStmt)).foldlM (CallStmt.run call) locals).bind
        (· cur) =
      (locals cur).bind fun v => attrs.foldlM (fun v attr => call attr v) v := by
  induction attrs generalizing locals with
  | nil => exact (Option.bind_fun_some (locals cur)).symm
  | cons attr attrs ih =>
      rw [List.map_cons, List.foldlM_cons, CallStmt.run]
      cases hcur : locals cur with
      | none => rfl
      | some v =>
          cases hcall : call attr v with
          | none => simp [hcall]
          | some v' =>
              simp only [Option.bind_some, hcall, Option.bind_eq_bind, Option.pure_def, ih, if_true,
                List.foldlM_cons]

section Forward

variable {V : Type} (nfkd : String → String) (layer_constructor : Node Sub → String × List String)
  (name : String) (order : List String) (wiring : WiringMap)
  (inherited : String → Option (V → Option V))

/-- A class attribute that is found before the layer of the name. -/
def Hidden (attr : String) : Prop := attr = "forward" ∨ (inherited attr).isSome

/-- Calling an attribute of the instance, with room for calls of `forward`. -/
def call_attr (m : ModuleSource) (layer : String → V → V) (room : Nat) (attr : String) (v : V) :
    Option V :=
  if attr = "forward" then m.call_forward inherited layer room v
  else
    match inherited attr with
    | some method => method v
    | none => (m.init.reverse.find? (·.1 = attr)).map fun a => layer a.2 v

/-- The emitted class runs the layers of a path, whatever they compute. -/
def Composes (m : ModuleSource) (path : List String) : Prop :=
  ∀ (layer : String → V → V) (x : V), ∃ room,
    m.call_forward inherited layer room x = some (path.foldl (fun v id => layer id v) x)

/-- `forward` calls the attributes one after the other. -/
theorem call_forward_succ (layer : String → V → V) (room : Nat) (x : V) :
    let m := emit_module nfkd layer_constructor name g order wiring
    m.call_forward inherited layer (room + 1) x =
      if forward_input_name nfkd g order wiring = "self" then none
      else ((attr_for nfkd g order).map Prod.snd).foldlM
        (fun v attr => call_attr inherited m layer room attr v) x := by
  intro m
  rw [ModuleSource.call_forward]
  by_cases hself : m.param = "self"
  · rw [if_pos hself]
    exact (if_pos hself).symm
  · rw [if_neg hself]
    refine Eq.trans ?_ (if_neg hself).symm
    have hforward : m.forward = ((attr_for nfkd g order).map Prod.snd).map fun attr =>
        (⟨m.param, attr, m.param⟩ : CallStmt) := by
      rw [List.map_map]
      rfl
    have hrun := foldlM_run (call_attr inherited m layer room) m.param
      ((attr_for nfkd g order).map Prod.snd) fun name => if name = m.param then some x else none
    rw [if_pos rfl, Option.bind_some] at hrun
    rw [hforward]
    exact hrun

variable {nfkd layer_constructor name order wiring inherited}

/-- An attribute that nothing hides is the layer that `__init__` assigned to it. -/
theorem call_attr_layer (layer : String → V → V) (room : Nat) {a : String × String}
    (ha : a ∈ attr_for nfkd g order) (hnot : ¬ Hidden inherited a.2) (v : V) :
    call_attr inherited (emit_module nfkd layer_constructor name g order wiring) layer room a.2 v =
      some (layer a.1 v) := by
  obtain ⟨hforward, hinherited⟩ := not_or.mp hnot
  have hfind : (emit_module nfkd layer_constructor name g order wiring).init.reverse.find?
      (·.1 = a.2) = some (a.2, a.1) := by
    have hmem : (a.2, a.1) ∈
        (emit_module nfkd layer_constructor name g order wiring).init.reverse := by
      rw [List.mem_reverse]
      exact List.mem_map_of_mem (f := fun a : String × String => (a.2, a.1)) ha
    refine Dict.find?_key ?_ hmem
    rw [List.map_reverse, List.nodup_reverse, emit_module, List.map_map]
    exact (assign_attr_names_nodup _ _ _).1
  rw [call_attr, if_neg hforward, Option.not_isSome_iff_eq_none.mp hinherited, hfind]
  rfl

/-- With nothing hidden, `forward` runs the layers in the order. -/
theorem composes_of_not_hidden
    (hself : forward_input_name nfkd g order wiring ≠ "self")
    (hnot : ∀ a ∈ attr_for nfkd g order, ¬ Hidden inherited a.2) :
    Composes inherited (emit_module nfkd layer_constructor name g order wiring) order := by
  intro layer x
  refine ⟨1, ?_⟩
  have hfold : ∀ l : List (String × String), (∀ a ∈ l, ¬ Hidden inherited a.2 ∧
      a ∈ attr_for nfkd g order) → ∀ x, (l.map Prod.snd).foldlM (fun v attr => call_attr inherited
        (emit_module nfkd layer_constructor name g order wiring) layer 0 attr v) x =
          some ((l.map Prod.fst).foldl (fun v id => layer id v) x) := by
    intro l hl
    induction l with
    | nil => exact fun x => rfl
    | cons a l ih =>
        intro x
        obtain ⟨ha, hl⟩ := List.forall_mem_cons.mp hl
        rw [List.map_cons, List.foldlM_cons, call_attr_layer layer 0 ha.2 ha.1]
        exact ih hl (layer a.1 x)
  rw [call_forward_succ, if_neg hself, hfold _ fun a ha => ⟨hnot a ha, ha⟩, attr_for,
    assign_attr_names_fst]

theorem foldlM_eq_none {α : Type} {f : V → α → Option V} {l : List α} {a : α} (ha : a ∈ l)
    (hf : ∀ v, f v a = none) (x : V) : l.foldlM f x = none := by
  induction l generalizing x with
  | nil => exact absurd ha List.not_mem_nil
  | cons b l ih =>
      rw [List.foldlM_cons]
      rcases List.mem_cons.mp ha with rfl | ha
      · rw [hf]
        rfl
      · cases f x b with
        | none => rfl
        | some v => exact ih ha v

/-- A layer under the name `forward` makes `forward` call itself without end. -/
theorem call_forward_forward {a : String × String} (ha : a ∈ attr_for nfkd g order)
    (hforward : a.2 = "forward") (layer : String → V → V) (room : Nat) (x : V) :
    (emit_module nfkd layer_constructor name g order wiring).call_forward inherited layer room x =
      none := by
  induction room generalizing x with
  | zero => rfl
  | succ room ih =>
      rw [call_forward_succ]
      split
      · rfl
      · refine foldlM_eq_none (List.mem_map_of_mem ha) (fun v => ?_) x
        rw [hforward, call_attr, if_pos rfl]
        exact ih v

theorem foldlM_congr {α : Type} {f f' : V → α → Option V} {l : List α}
    (h : ∀ a ∈ l, ∀ v, f v a = f' v a) (x : V) : l.foldlM f x = l.foldlM f' x := by
  induction l generalizing x with
  | nil => rfl
  | cons a l ih =>
      obtain ⟨ha, hl⟩ := List.forall_mem_cons.mp h
      rw [List.foldlM_cons, List.foldlM_cons, ha x]
      cases f' x a with
      | none => rfl
      | some v => exact ih hl v

/-- Some layers return one value, the others what they are given. -/
def constant_at (at_layer : String → Bool) (c : V) (id : String) (v : V) : V :=
  if at_layer id then c else v

theorem foldl_constant_at {at_layer : String → Bool} {c : V} {path : List String}
    (h : ∃ id ∈ path, at_layer id = true) (x : V) :
    path.foldl (fun v id => constant_at at_layer c id v) x = c := by
  have hstays : ∀ rest : List String,
      rest.foldl (fun v id => constant_at at_layer c id v) c = c := by
    intro rest
    induction rest with
    | nil => rfl
    | cons id rest ih => rwa [List.foldl_cons, constant_at, ite_self]
  obtain ⟨id, hid, hat⟩ := h
  obtain ⟨pre, post, rfl⟩ := List.append_of_mem hid
  rw [List.foldl_append, List.foldl_cons, constant_at, if_pos hat, hstays]

theorem composes_iff [Nontrivial V] (hnodup : order.Nodup) :
    Composes inherited (emit_module nfkd layer_constructor name g order wiring) order ↔
      forward_input_name nfkd g order wiring ≠ "self" ∧
        ∀ a ∈ attr_for nfkd g order, ¬ Hidden inherited a.2 := by
  refine ⟨fun h => ?_, fun h => composes_of_not_hidden h.1 h.2⟩
  obtain ⟨c, c', hne⟩ := exists_pair_ne V
  have hself : forward_input_name nfkd g order wiring ≠ "self" := by
    intro hself
    obtain ⟨room, hroom⟩ := h (fun _ v => v) c
    cases room with
    | zero => cases hroom
    | succ room =>
        rw [call_forward_succ, if_pos hself] at hroom
        cases hroom
  have hforward : ∀ a ∈ attr_for nfkd g order, a.2 ≠ "forward" := by
    intro a ha heq
    obtain ⟨room, hroom⟩ := h (fun _ v => v) c
    rw [call_forward_forward ha heq] at hroom
    cases hroom
  refine ⟨hself, fun a ha hhidden => ?_⟩
  -- the hidden layers return a constant, which the run cannot depend on
  let at_layer : String → Bool := fun id =>
    (attr_for nfkd g order).any fun a => a.1 = id && (inherited a.2).isSome
  have hat : ∃ id ∈ order, at_layer id = true := by
    have hmem := List.mem_map_of_mem (f := Prod.fst) ha
    rw [attr_for, assign_attr_names_fst] at hmem
    have hsome := hhidden.resolve_left (hforward a ha)
    exact ⟨a.1, hmem, List.any_eq_true.mpr ⟨a, ha, by simp [hsome]⟩⟩
  have hcall : ∀ room room', ∀ attr ∈ (attr_for nfkd g order).map Prod.snd, ∀ v,
      call_attr inherited (emit_module nfkd layer_constructor name g order wiring)
          (constant_at at_layer c) room attr v =
        call_attr inherited (emit_module nfkd layer_constructor name g order wiring)
          (constant_at at_layer c') room' attr v := by
    intro room room' attr hattr v
    obtain ⟨b, hb, rfl⟩ := List.mem_map.mp hattr
    cases hinherited : inherited b.2 with
    | some method => simp only [call_attr, if_neg (hforward b hb), hinherited]
    | none =>
        have hnot : ¬ Hidden inherited b.2 := not_or.mpr ⟨hforward b hb, by simp [hinherited]⟩
        have hkept : at_layer b.1 = false := by
          refine List.any_eq_false.mpr fun a' ha' => ?_
          simp only [Bool.and_eq_true, decide_eq_true_eq, not_and]
          intro hid
          have hsame : a' = b := List.inj_on_of_nodup_map
            (by rw [attr_for, assign_attr_names_fst]; exact hnodup) ha' hb hid
          rw [hsame, hinherited]
          exact Bool.false_ne_true
        rw [call_attr_layer _ room hb hnot, call_attr_layer _ room' hb hnot, constant_at,
          constant_at, hkept]
        rfl
  obtain ⟨room, hroom⟩ := h (constant_at at_layer c) c
  obtain ⟨room', hroom'⟩ := h (constant_at at_layer c') c
  rw [foldl_constant_at hat] at hroom hroom'
  cases room with
  | zero => cases hroom
  | succ room =>
      cases room' with
      | zero => cases hroom'
      | succ room' =>
          rw [call_forward_succ, if_neg hself] at hroom hroom'
          rw [foldlM_congr (hcall room room') c, hroom'] at hroom
          exact hne (Option.some.inj hroom).symm

end Forward

/-! ## The law of the chain -/

section Law

variable {V : Type} (nfkd : String → String) (layer_constructor : Node Sub → String × List String)
  (name : String) (inherited : String → Option (V → Option V))

/-- The check accepts the graphs that are one path; of an accepted one the visiting order is
the path, and the class that is emitted runs the layers along it. -/
structure ChainLaw (g : Graph Sub) : Prop where
  accepts : Accepts g ↔ ∃ path, Path g path
  order : ∀ order wiring, topological_sort g = .ok order → build_wiring_map g = .ok wiring →
    require_linear_chain g wiring = .ok () → ∃ path, Path g path ∧ order = path ∧
      Composes inherited (emit_module nfkd layer_constructor name g order wiring) path

/-- A graph that is a path lists its wired ports once, its input is not named `self`, and the
attribute names of its layers are not names that the class has already. -/
def Plain (g : Graph Sub) : Prop :=
  ∀ path, Path g path → ListedOnce g ∧ ∀ wiring, build_wiring_map g = .ok wiring →
    forward_input_name nfkd g path wiring ≠ "self" ∧
      ∀ a ∈ attr_for nfkd g path, ¬ Hidden inherited a.2

variable {nfkd layer_constructor name inherited}

theorem ChainLaw.plain [Nontrivial V] (hv : g.Valid) (hne : g.nodes.values ≠ [])
    (hacyclic : Closure.Acyclic g.Feeds)
    (h : ChainLaw nfkd layer_constructor name inherited g) : Plain nfkd inherited g := by
  intro path hpath
  have haccepts := h.accepts.mpr ⟨path, hpath⟩
  refine ⟨((accepts_iff hv hne hacyclic).mp haccepts).2, fun wiring hw => ?_⟩
  obtain ⟨wiring', hw', hcheck⟩ := haccepts
  obtain rfl : wiring' = wiring := Except.ok.inj (hw'.symm.trans hw)
  obtain ⟨path', -, rfl, hcomposes⟩ :=
    h.order path wiring' (hpath.topological_sort_eq hv hacyclic) hw hcheck
  exact (composes_iff hpath.nodup).mp hcomposes

theorem Plain.chain_law (hv : g.Valid) (hne : g.nodes.values ≠ [])
    (hacyclic : Closure.Acyclic g.Feeds) (h : Plain nfkd inherited g) :
    ChainLaw nfkd layer_constructor name inherited g := by
  constructor
  · refine ⟨fun haccepts => ((accepts_iff hv hne hacyclic).mp haccepts).1, ?_⟩
    rintro ⟨path, hpath⟩
    exact (accepts_iff hv hne hacyclic).mpr ⟨⟨path, hpath⟩, (h path hpath).1⟩
  · intro order wiring horder hw hcheck
    obtain ⟨⟨path, hpath⟩, -⟩ := (accepts_iff hv hne hacyclic).mp ⟨wiring, hw, hcheck⟩
    obtain rfl : path = order :=
      Except.ok.inj ((hpath.topological_sort_eq hv hacyclic).symm.trans horder)
    obtain ⟨hself, hnot⟩ := (h path hpath).2 wiring hw
    exact ⟨path, hpath, rfl, composes_of_not_hidden hself hnot⟩

/-- The law holds of exactly the plain graphs. -/
theorem chain_law_iff_plain [Nontrivial V] (hv : g.Valid) (hne : g.nodes.values ≠ [])
    (hacyclic : Closure.Acyclic g.Feeds) :
    ChainLaw nfkd layer_constructor name inherited g ↔ Plain nfkd inherited g :=
  ⟨fun h => h.plain hv hne hacyclic, fun h => h.chain_law hv hne hacyclic⟩

/-- One layer of a chain. -/
def layer_node (id type label : String) : Node Empty :=
  { id, type, label := some label, paradigm := .DECLARATIVE
    ports := [{ id := "x", name := "x", direction := .IN },
      { id := "out", name := "out", direction := .OUT }] }

/-- A linear layer that feeds an activation, which the map lists first. -/
def two_layers : Graph Empty where
  paradigm := .DECLARATIVE
  nodes := Dict.ofList [("r", layer_node "r" "nn.relu" "Act"), ("l", layer_node "l" "nn.linear" "Fc")]
  edges := Dict.ofList [("e", { id := "e", source := ⟨"l", "out"⟩, target := ⟨"r", "x"⟩ })]

theorem two_layers_valid : two_layers.Valid := Graph.validate_structure_eq_ok.mp rfl

theorem two_layers_acyclic : Closure.Acyclic two_layers.Feeds :=
  (topological_sort_ok_iff two_layers_valid).mp ⟨["l", "r"], rfl⟩

/-- The names of the two layers are their base names. -/
theorem attr_for_two_layers : attr_for id two_layers ["l", "r"] = [("l", "fc"), ("r", "act")] := by
  have hfc : base_of id two_layers "l" = "fc" := by decide
  have hact : base_of id two_layers "r" = "act" := by decide
  rw [attr_for, assign_attr_names, hfc, assign_attr_names, hact, assign_attr_names,
    attr_name_of_notMem (by decide), attr_name_of_notMem (by decide)]

theorem chain_law_two_layers : ChainLaw id (fun _ => ("nn.Identity()", [])) "Module"
    (fun attr => if attr = "train" then some (some : Bool → Option Bool) else none) two_layers := by
  refine (chain_law_iff_plain two_layers_valid (by decide) two_layers_acyclic).mpr ?_
  intro path hpath
  obtain rfl : path = ["l", "r"] := Except.ok.inj
    ((hpath.topological_sort_eq two_layers_valid two_layers_acyclic).symm.trans rfl)
  refine ⟨by decide, fun wiring hw => ?_⟩
  obtain rfl := Except.ok.inj hw
  rw [attr_for_two_layers]
  exact ⟨by decide, by simp [Hidden]⟩

/-- A single layer that is labelled `Forward`. -/
def forward_layer : Graph Empty where
  paradigm := .DECLARATIVE
  nodes := Dict.ofList [("l", layer_node "l" "nn.linear" "Forward")]

/-- Its attribute is `forward`, and `forward` calls itself. -/
theorem forward_layer_recurs : ¬ ChainLaw id (fun _ => ("nn.Identity()", [])) "Module"
    (fun _ => (none : Option (Bool → Option Bool))) forward_layer := by
  intro h
  obtain ⟨path, -, rfl, hcomposes⟩ := h.order ["l"] _ rfl rfl rfl
  obtain ⟨room, hroom⟩ := hcomposes (fun _ v => v) true
  have hattr : ("l", "forward") ∈ attr_for id forward_layer ["l"] := by
    have hbase : base_of id forward_layer "l" = "forward" := by decide
    rw [attr_for, assign_attr_names, hbase, attr_name_of_notMem List.not_mem_nil]
    exact List.mem_cons_self
  rw [call_forward_forward hattr rfl] at hroom
  cases hroom

end Law

section Compile

variable {nfkd : String → String} {is_identifier : String → Bool}
  {validate_node : Node Sub → List String} {layer_constructor : Node Sub → String × List String}
  {graph : Graph (Graph Sub)}

/-- A prepared graph has passed the check, in the visiting order of the inner graph of its
module. -/
theorem prepare_declarative_eq_ok {p : Prepared Sub}
    (h : prepare_declarative validate_node graph = .ok p) :
    p.module_node ∈ graph.nodes.values ∧ p.module_node.subgraph = some p.subgraph ∧
      p.subgraph.nodes.size ≠ 0 ∧ topological_sort p.subgraph = .ok p.order ∧
        build_wiring_map p.subgraph = .ok p.wiring ∧
          require_linear_chain p.subgraph p.wiring = .ok () := by
  -- the graph has no agent nodes
  obtain ⟨-, -, h⟩ := Checks.bind_eq_ok.mp h
  split at h
  · cases h
  · next module_node hmodule =>
      have hmem : module_node ∈ graph.nodes.values :=
        List.mem_of_mem_filter (hmodule ▸ List.mem_singleton_self module_node)
      cases hsub : module_node.subgraph with
      | none =>
          rw [hsub] at h
          cases h
      | some subgraph =>
          rw [hsub] at h
          by_cases hempty : subgraph.nodes.size = 0
          · simp only [if_pos hempty] at h
            cases h
          · simp only [if_neg hempty] at h
            obtain ⟨-, -, h⟩ := Checks.bind_eq_ok.mp h
            obtain ⟨-, -, h⟩ := Checks.bind_eq_ok.mp h
            obtain ⟨order, horder, h⟩ := Checks.bind_eq_ok.mp h
            obtain ⟨wiring, hw, h⟩ := Checks.bind_eq_ok.mp h
            obtain ⟨⟨⟩, hcheck, h⟩ := Checks.bind_eq_ok.mp h
            cases h
            exact ⟨hmem, hsub, hempty, Checks.mapError_eq_ok.mp horder,
              Checks.mapError_eq_ok.mp hw, hcheck⟩
  · cases h

/-- A class that is compiled from plain layers runs them along the edges. -/
theorem compile_declarative_composes {V : Type} {m : ModuleSource}
    {inherited : String → Option (V → Option V)}
    (h : compile_declarative nfkd validate_node layer_constructor is_identifier graph = .ok m)
    (hinner : ∀ node ∈ graph.nodes.values, ∀ subgraph, node.subgraph = some subgraph →
      subgraph.Valid ∧ Plain nfkd inherited subgraph) :
    ∃ node ∈ graph.nodes.values, ∃ subgraph, node.subgraph = some subgraph ∧
      ∃ path, Path subgraph path ∧ Composes inherited m path := by
  obtain ⟨p, hp, hm⟩ := Checks.bind_eq_ok.mp h
  obtain rfl := Except.ok.inj hm
  obtain ⟨hmem, hsub, hsize, horder, hw, hcheck⟩ := prepare_declarative_eq_ok hp
  obtain ⟨hv, hplain⟩ := hinner _ hmem _ hsub
  have hne : p.subgraph.nodes.values ≠ [] := by
    intro hvalues
    exact hsize (List.length_eq_zero_iff.mpr (List.map_eq_nil_iff.mp hvalues))
  have hacyclic := (topological_sort_ok_iff hv).mp ⟨_, horder⟩
  obtain ⟨path, hpath, -, hcomposes⟩ :=
    (hplain.chain_law hv hne hacyclic).order _ _ horder hw hcheck
  exact ⟨_, hmem, _, hsub, path, hpath, hcomposes⟩

end Compile

end EmergentFlow.Declarative
