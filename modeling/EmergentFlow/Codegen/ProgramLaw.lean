import EmergentFlow.Codegen.GateLaws
import EmergentFlow.Codegen.MaterializeLaw
import EmergentFlow.Codegen.ProgramComposite
import EmergentFlow.Codegen.WiringLaw

/-!
# Codegen — ProgramLaw

`main` of the compiled program returns what `execute` finds at the OUT ports that
nothing consumes, for every graph, nested to any depth, whose names the compiler can
keep apart, and for every override of its params.
-/

namespace EmergentFlow.Program

open Naming Scopes Together

variable {Sub V C ε : Type}

/-! ## Graphs that compile to what they are -/

/-- The params of a subgraph have keywords, and the keywords that are read in it are
not the names of the parameters of its function. -/
structure Enclosed (kwargs : Dict String String) (sites : List ParamSite) (node : Node (Graph Sub))
    (sub : Graph Sub) : Prop where
  params : ∀ name ∈ sub.params.keys, name ∈ kwargs.keys
  unlike : ∀ s ∈ sites, ∀ ref kwarg, s.param.ref = some ref → kwargs.get? ref = some kwarg →
    ∀ i < node.in_ports.length, kwarg ≠ formal i

/-- A graph with its variables apart, from each other and from the reserved names, and
what is asked of the subgraphs of its composites. -/
structure Graph.CompilableWith (l : Language V C ε) (inside : Node Sub → Sub → Prop)
    (reserved : List String) (g : Graph Sub) : Prop where
  sound : Sound g
  apart : Separable l.blake2s (port_entries l.nfkd g) reserved
  inside : ∀ {id node sub}, g.nodes.get? id = some node → node.type = COMPOSITE_NODE_TYPE →
    node.subgraph = some sub → inside node sub

/-- The same at every depth, under the keywords of `main`. -/
def Compilable (l : Language V C ε) (kwargs : Dict String String) :
    (n : Nat) → List String → Graph (Nested n) → Prop
  | 0 => Graph.CompilableWith l fun _ _ => True
  | n + 1 => Graph.CompilableWith l fun node sub =>
      Enclosed kwargs (param_sites n sub) node sub ∧ Compilable l kwargs n kwargs.values sub

section Levels

variable {l : Language V C ε} {kwargs : Dict String String} {n : Nat} {reserved : List String}

theorem Compilable.sound {g : Graph (Nested n)} (h : Compilable l kwargs n reserved g) :
    Sound g := by
  cases n with
  | zero => exact Graph.CompilableWith.sound h
  | succ n => exact Graph.CompilableWith.sound h

theorem Compilable.apart {g : Graph (Nested n)} (h : Compilable l kwargs n reserved g) :
    SuffixesApart l.blake2s (port_entries l.nfkd g) reserved := by
  refine suffixesApart_iff.mpr ?_
  cases n with
  | zero => exact Graph.CompilableWith.apart h
  | succ n => exact Graph.CompilableWith.apart h

theorem bakes_bake_node (resolved : Dict String ParamValue) (n : Nat) :
    Bakes resolved (bake_node resolved n) := by
  refine ⟨keepsFrame_bake_node resolved n, fun node => ?_⟩
  cases n <;> rfl

/-- The graph params that a nested graph refers to. -/
def refers (n : Nat) (g : Graph (Nested n)) (ref : String) : Prop :=
  ∃ s ∈ param_sites n g, s.param.ref = some ref

theorem refers_own {g : Graph (Nested n)} {id : String} {node : Node (Nested n)}
    (hnode : g.nodes.get? id = some node) {param : Param} (hparam : param ∈ node.params)
    {ref : String} (href : param.ref = some ref) : refers n g ref := by
  refine ⟨⟨node.shell, param⟩, ?_, href⟩
  cases n with
  | zero =>
      exact Graph.mem_param_sites_with.mpr ⟨id, node, hnode, .inr ⟨param, hparam, rfl⟩⟩
  | succ n =>
      exact Graph.mem_param_sites_with.mpr ⟨id, node, hnode, .inr ⟨param, hparam, rfl⟩⟩

theorem refers_inside {g : Graph (Nested (n + 1))} {id : String} {node : Node (Nested (n + 1))}
    (hnode : g.nodes.get? id = some node) {sub : Graph (Nested n)} (hsub : node.subgraph = some sub)
    {ref : String} (h : refers n sub ref) : refers (n + 1) g ref := by
  obtain ⟨s, hs, href⟩ := h
  exact ⟨s, Graph.mem_param_sites_with.mpr ⟨id, node, hnode, .inl ⟨sub, hsub, hs⟩⟩, href⟩

/-- A compilable graph agrees at every depth. -/
theorem Compilable.agrees {st : Stage V (Nested n)}
    {a : Assembler (Nested n) (Fragment V) BindingError}
    (h : Compilable l st.kwargs n reserved st.graph) (hfits : st.Fits l)
    (hp : st.Pair l a (nested_executor l.runtime (fun _ => l.behaviour) l.clients n))
    (ha : a.composite = (l.nested_assembler n).composite)
    (hled : ∀ {ref kwarg}, st.kwargs.get? ref = some kwarg → Led kwarg)
    (hparams : ∀ name ∈ st.graph.params.keys, name ∈ st.kwargs.keys)
    (hrefs : ∀ ref, refers n st.graph ref → st.uses ref ∧ ref ∈ st.kwargs.keys) :
    st.Agrees l (bake_node st.resolved n) a
      (nested_executor l.runtime (fun _ => l.behaviour) l.clients n) := by
  induction n generalizing reserved with
  | zero =>
      refine hp.agrees hfits (bakes_bake_node _ _) (fun {id node ctx} hnode _ hreads => ?_) hparams
      have hfail : a.composite = fun node _ _ => .error (.codegen (.no_subgraph node.id)) := ha
      refine ⟨fun {fragment} hfragment => ?_, fun _ => ?_⟩
      · rw [hfail] at hfragment
        cases hfragment
      · rw [hfail]
        show Option.Rel _ (Option.bind _ fun _ => none) none
        rw [Option.bind_fun_none]
        exact .none
  | succ n ih =>
      refine hp.agrees hfits (bakes_bake_node _ _)
        (fun {id node ctx} hnode htype hreads => ?_) hparams
      refine hreads.composite (bake_node st.resolved n) (l.nested_assembler n)
        (nested_executor l.runtime (fun _ => l.behaviour) l.clients n) hfits
        (keepsFrame_bake_node _ _) hnode ?_ (keepsFrame_bake_node _ _) ha rfl ?_
      · rw [← bake_eq_map_nodes]
        rfl
      · intro sub hsub
        obtain ⟨henclosed, hsubgraph⟩ := Graph.CompilableWith.inside h hnode htype hsub
        have huses : ∀ {ref}, refers n sub ref → st.uses ref ∧ ref ∈ st.kwargs.keys :=
          fun {ref} href => hrefs ref (refers_inside hnode hsub href)
        refine ⟨build_name_map l.nfkd l.blake2s sub st.kwargs.values, refers n sub, ?_,
          fun href => (huses href).1, fun w overrides seeds hinner => ?_⟩
        · constructor
          · exact hsubgraph.sound
          · exact named_of_apart hsubgraph.apart
          · exact henclosed.params
          · intro id' node' hnode' param hparam ref href
            have hown := refers_own hnode' hparam href
            exact ⟨hown, (huses hown).2⟩
          · exact fun _ => hled
          · rintro ref kwarg ⟨s, hs, href⟩ hkwarg
            exact henclosed.unlike s hs ref kwarg href hkwarg
        · have hpair : (st.inside sub w (build_name_map l.nfkd l.blake2s sub st.kwargs.values)
              (refers n sub) overrides seeds).Pair l (l.nested_assembler n)
              (nested_executor l.runtime (fun _ => l.behaviour) l.clients n) := by
            cases n <;> exact ⟨rfl, rfl, fun _ => rfl, rfl, rfl, rfl⟩
          exact @ih _ (st.inside sub w _ (refers n sub) overrides seeds) _ hsubgraph hinner hpair
            rfl hled henclosed.params fun ref href => ⟨href, (huses href).2⟩

end Levels

/-! ## The keywords of `main` -/

section Keywords

variable {l : Language V C ε} {g : Graph Sub}

theorem keys_kwargs (l : Language V C ε) (g : Graph Sub) :
    (build_graph_param_names l.nfkd l.blake2s g
      (build_name_map l.nfkd l.blake2s g [])).map Prod.fst = sorted_params g := name_params_keys _ _

theorem nodup_sorted_params (g : Graph Sub) : (sorted_params g).Nodup :=
  (List.perm_insertionSort _ _).nodup_iff.mpr g.params.nodup_keys

theorem entries_kwargs (l : Language V C ε) (g : Graph Sub) : (l.kwargs g).entries =
    build_graph_param_names l.nfkd l.blake2s g (build_name_map l.nfkd l.blake2s g []) :=
  Dict.entries_ofList (by rw [keys_kwargs]; exact nodup_sorted_params g)

theorem mem_keys_kwargs {name : String} : name ∈ (l.kwargs g).keys ↔ name ∈ g.params.keys := by
  rw [Dict.keys, entries_kwargs, keys_kwargs, sorted_params, List.mem_insertionSort]

theorem led_candidate {nfkd : String → String} {blake2s : Blake2s} {pname name : String}
    (h : name ∈ param_candidates nfkd blake2s pname) : Led name := by
  have hbase : Led (identifier_or nfkd pname "param") :=
    led_identifier_or nfkd pname ⟨'p', ['a', 'r', 'a', 'm'], rfl, fun h => absurd h (by decide)⟩
  rw [param_candidates, List.mem_cons, List.mem_map] at h
  rcases h with hname | ⟨length, -, hname⟩
  · exact hname ▸ hbase
  · exact hname ▸ (hbase.append _).append _

theorem led_pick_name (nfkd : String → String) (blake2s : Blake2s) (taken : List String)
    (pname : String) : Led (pick_name nfkd blake2s taken pname) := by
  rw [pick_name]
  cases hfind : (param_candidates nfkd blake2s pname).find? (· ∉ taken) with
  | some name => exact led_candidate (List.mem_of_find?_eq_some hfind)
  | none =>
      exact led_candidate (List.mem_cons_of_mem _ (List.mem_map.mpr ⟨16, by decide, rfl⟩))

theorem led_name_params {nfkd : String → String} {blake2s : Blake2s} {taken params : List String}
    {e : String × String} (h : e ∈ name_params nfkd blake2s taken params) : Led e.2 := by
  induction params generalizing taken with
  | nil => cases h
  | cons pname rest ih =>
      rw [name_params] at h
      rcases List.mem_cons.mp h with rfl | h
      · exact led_pick_name _ _ _ _
      · exact ih h

theorem led_kwargs {ref kwarg : String} (h : (l.kwargs g).get? ref = some kwarg) : Led kwarg := by
  have hmem := (Dict.mem_entries_iff _).mpr h
  rw [entries_kwargs] at hmem
  exact led_name_params hmem

/-- The names of the params can be told from all others that `main` has. -/
def KeywordsFree (l : Language V C ε) (g : Graph Sub) : Prop :=
  ParamsFree l.nfkd l.blake2s (· ≠ "ef") (taken_names (build_name_map l.nfkd l.blake2s g []))
    (sorted_params g)

theorem KeywordsFree.safe (h : KeywordsFree l g) : (l.kwargs g).values.Nodup ∧
    ∀ {ref kwarg}, (l.kwargs g).get? ref = some kwarg → kwarg ≠ "ef" ∧
      kwarg ∉ MAIN_RESERVED_NAMES ∧
        ∀ {port}, var_for (build_name_map l.nfkd l.blake2s g []) port ≠ some kwarg := by
  have hsafe := (name_params_safe_iff _ _).mpr h
  constructor
  · rw [Dict.values, entries_kwargs]
    exact hsafe.distinct
  · intro ref kwarg hkwarg
    have hmem := (Dict.mem_entries_iff _).mpr hkwarg
    rw [entries_kwargs] at hmem
    obtain ⟨htaken, hef⟩ := hsafe.free kwarg (List.mem_map.mpr ⟨_, hmem, rfl⟩)
    rw [taken_names, List.mem_append, not_or] at htaken
    refine ⟨hef, htaken.2, fun {port} hvar => htaken.1 ?_⟩
    obtain ⟨b, hb, -, hname⟩ := mem_of_var_for hvar
    exact List.mem_map.mpr ⟨b, hb, hname⟩

end Keywords

/-! ## Overrides -/

section Overrides

variable {l : Language V C ε} {n : Nat}

/-- The values of the params of a graph in a run. -/
def resolved (g : Graph Sub) (overrides : Dict String ParamValue) : Dict String ParamValue :=
  g.params.mapValues fun name param => (overrides.get? name).getD param.value

/-- An override of a param is the keyword argument of its name. -/
theorem get?_given {g : Graph Sub} (hnodup : (l.kwargs g).values.Nodup)
    {overrides : Dict String ParamValue} {name kwarg : String}
    (h : (l.kwargs g).get? name = some kwarg) :
    (l.given g overrides).get? kwarg = overrides.get? name := by
  have hkeys : (((l.kwargs g).entries.filterMap fun e =>
      (overrides.get? e.1).map (e.2, ·)).map Prod.fst).Nodup := by
    have hsub : (((l.kwargs g).entries.filterMap fun e =>
        (overrides.get? e.1).map (e.2, ·)).map Prod.fst).Sublist (l.kwargs g).values := by
      rw [List.map_filterMap, Dict.values]
      induction (l.kwargs g).entries with
      | nil => exact .slnil
      | cons e entries ih =>
          cases hget : overrides.get? e.1 with
          | none => simpa [hget] using ih.cons e.2
          | some value => simpa [hget] using ih.cons_cons e.2
    exact hnodup.sublist hsub
  ext value
  rw [← Dict.mem_entries_iff, Language.given, Dict.entries_ofList hkeys, List.mem_filterMap]
  constructor
  · rintro ⟨e, he, heq⟩
    obtain ⟨value', hvalue, heq⟩ := Option.map_eq_some_iff.mp heq
    obtain ⟨hname, rfl⟩ := Prod.mk.inj heq
    -- two params with one keyword are one
    have hentry := List.inj_on_of_nodup_map hnodup he ((Dict.mem_entries_iff _).mpr h) hname
    rw [hentry] at hvalue
    exact hvalue
  · intro hvalue
    exact ⟨(name, kwarg), (Dict.mem_entries_iff _).mpr h, by rw [hvalue]; rfl⟩

/-- A run with known overrides reads the graph with their values. -/
theorem materialize_eq {g : Graph (Nested n)} (hrefs : RefsResolved g.params.keys n g)
    {params : Option (Dict String ParamValue)}
    (hknown : ∀ name ∈ (params.getD Dict.empty).keys, name ∈ g.params.keys) :
    materialize_if_needed n g params = .ok (bake (resolved g (params.getD Dict.empty)) n g) := by
  have hkeys : (resolved g (params.getD Dict.empty)).keys = g.params.keys :=
    Dict.keys_mapValues _ _
  rw [materialize_if_needed]
  split
  · have hresolve : resolve_graph_params g params = .ok (resolved g (params.getD Dict.empty)) := by
      rw [resolve_graph_params, if_pos]
      · rfl
      · exact List.filter_eq_nil_iff.mpr fun name hname => by simpa using hknown name hname
    rw [materialize_graph, hresolve]
    exact resolve_nodes_of_resolved (hkeys ▸ hrefs)
  · rename_i hneeded
    simp only [Bool.or_eq_true, not_or, Bool.not_eq_true] at hneeded
    rw [bake_of_no_refs hneeded.2]

theorem mem_of_refers {names : List String} {g : Graph (Nested n)} (h : RefsResolved names n g)
    {ref : String} (href : refers n g ref) : ref ∈ names := by
  induction n with
  | zero =>
      obtain ⟨s, hs, href⟩ := href
      obtain ⟨id, node, hnode, ⟨sub, -, -⟩ | ⟨param, hparam, rfl⟩⟩ :=
        Graph.mem_param_sites_with.mp hs
      · exact sub.elim
      · exact (h id node hnode).1 param hparam ref href
  | succ n ih =>
      obtain ⟨s, hs, href⟩ := href
      obtain ⟨id, node, hnode, ⟨sub, hsub, hs⟩ | ⟨param, hparam, rfl⟩⟩ :=
        Graph.mem_param_sites_with.mp hs
      · exact ih ((h id node hnode).2 sub hsub) ⟨s, hs, href⟩
      · exact (h id node hnode).1 param hparam ref href

end Overrides

/-! ## The start of `main` -/

section Start

variable {l : Language V C ε} {n : Nat} {g : Graph (Nested n)} {w : WiringMap}

/-- The graph that `main` runs. -/
def top (l : Language V C ε) (g : Graph (Nested n)) (w : WiringMap)
    (overrides : Dict String ParamValue) : Stage V (Nested n) where
  graph := g
  wiring := w
  name_map := build_name_map l.nfkd l.blake2s g []
  overrides := Dict.empty
  seeds := Dict.empty
  kwargs := l.kwargs g
  resolved := resolved g overrides
  uses := refers n g

theorem top_fits (h : Compilable l (l.kwargs g) n [] g) (hfree : KeywordsFree l g)
    (hrefs : RefsResolved g.params.keys n g) (hw : build_wiring_map g = .ok w)
    (overrides : Dict String ParamValue) : (top l g w overrides).Fits l := by
  constructor
  · exact h.sound
  · exact hw
  · exact ⟨[], named_of_apart h.apart⟩
  · intro key p hget
    cases hget
  · intro key p hget
    cases hget
  · rintro ref kwarg - hkwarg (⟨port, hvar⟩ | ⟨id, node, -, hfn⟩)
    · exact (hfree.safe.2 hkwarg).2.2 hvar
    · exact (led_kwargs hkwarg).ne_fn_name _ _ hfn
  · intro id node hnode param hparam ref href
    have hown := refers_own hnode hparam href
    exact ⟨hown, mem_keys_kwargs.mpr (mem_of_refers hrefs hown)⟩

/-- The keywords of `main`, each with its stored value. -/
def keywords (l : Language V C ε) (g : Graph (Nested n)) : List (String × ParamValue) :=
  (g.params.keys.insertionSort (· ≤ ·)).map fun name =>
    (((l.kwargs g).get? name).getD "", ((g.params.get? name).map (·.value)).getD .none)

theorem names_keywords (l : Language V C ε) (g : Graph (Nested n)) :
    (keywords l g).map Prod.fst = (l.kwargs g).values := by
  have hkeys : g.params.keys.insertionSort (· ≤ ·) = (l.kwargs g).entries.map Prod.fst := by
    rw [entries_kwargs, keys_kwargs]
    rfl
  rw [keywords, hkeys, Dict.values, List.map_map, List.map_map]
  refine List.map_congr_left fun e he => ?_
  rw [Function.comp_apply, Function.comp_apply, (Dict.mem_entries_iff _).mp he]
  rfl

/-- `main` begins with the values of the run in its keywords. -/
theorem top_starts (h : Compilable l (l.kwargs g) n [] g) (hfree : KeywordsFree l g)
    (hrefs : RefsResolved g.params.keys n g) (overrides : Dict String ParamValue) :
    (top l g w overrides).Starts l [] fun assigned =>
      Frame.enter ((keywords l g).map Prod.fst) assigned
        ((keywords l g).map fun k => l.literal (((l.given g overrides).get? k.1).getD k.2)) := by
  intro assigned hcovers
  obtain ⟨frame, hframe⟩ : ∃ frame, Frame.enter ((keywords l g).map Prod.fst) assigned
      ((keywords l g).map fun k => l.literal (((l.given g overrides).get? k.1).getD k.2)) =
        some frame := by
    rw [← Option.isSome_iff_exists, Frame.enter, Frame.assign_isSome_iff, List.length_map,
      List.length_map]
  obtain ⟨hlocals, hunbound⟩ := Frame.enter_spec hframe
  rw [names_keywords] at hlocals hunbound
  have hnamed : Named g [] (build_name_map l.nfkd l.blake2s g []) := named_of_apart h.apart
  have hkeyword : ∀ {kwarg}, kwarg ∈ (l.kwargs g).values →
      ∃ ref, (l.kwargs g).get? ref = some kwarg := (Dict.mem_values_iff _).mp
  refine ⟨frame, hframe, ?_, ?_, fun _ => .none, ?_, ?_, ?_⟩
  · intro id node hnode port hport name hname
    refine hunbound name fun hmem => ?_
    obtain ⟨ref, hkwarg⟩ := hkeyword hmem
    exact (hfree.safe.2 hkwarg).2.2 hname
  · intro ref name hname
    rw [hlocals]
    exact List.mem_append_right _ (hcovers.all hname)
  · intro ref kwarg huses hkwarg
    obtain ⟨param, hparam⟩ := (Dict.mem_keys_iff _).mp (mem_of_refers hrefs huses)
    have hvalue : (resolved g overrides).get? ref =
        some ((overrides.get? ref).getD param.value) := by
      rw [resolved, Dict.get?_mapValues, hparam]
      rfl
    refine ⟨_, hvalue, ?_⟩
    have hmem : ref ∈ g.params.keys.insertionSort (· ≤ ·) :=
      (List.mem_insertionSort _).mpr ((Dict.mem_keys_iff _).mpr ⟨param, hparam⟩)
    obtain ⟨i, hi⟩ := List.mem_iff_getElem?.mp hmem
    have hentry : (keywords l g)[i]? = some (kwarg, param.value) := by
      have hkwarg : (l.kwargs g).get? ref = some kwarg := hkwarg
      rw [keywords, List.getElem?_map, hi, Option.map_some, hkwarg, hparam]
      rfl
    have hname : ((keywords l g).map Prod.fst)[i]? = some kwarg := by
      rw [List.getElem?_map, hentry]
      rfl
    rw [lookup_local, Frame.assign_value? hframe (names_keywords l g ▸ hfree.safe.1) hname,
      List.getElem?_map, hentry, Option.map_some, get?_given hfree.safe.1 hkwarg]
    rw [hlocals]
    exact List.mem_append_left _ ((Dict.mem_values_iff _).mpr ⟨ref, hkwarg⟩)
  · intro type name hname
    obtain ⟨hunder, -⟩ := underscore_notMem_global hname
    rw [List.forall_mem_singleton, hlocals, List.mem_append, not_or]
    constructor
    · intro hmem
      obtain ⟨ref, hkwarg⟩ := hkeyword hmem
      obtain ⟨hef, hreserved, -⟩ := hfree.safe.2 hkwarg
      rcases List.mem_cons.mp hname with rfl | hseam
      · exact hef rfl
      · obtain ⟨kind, -, rfl⟩ := List.mem_map.mp hseam
        cases kind <;> exact hreserved (by decide)
    · exact fun hmem => hunder (underscore_of_owned hnamed (hcovers.owned _ hmem))
  · intro id node outputs _ houtputs
    cases houtputs

end Start

/-! ## What `main` returns -/

section Returns

variable {l : Language V C ε}

theorem consumers_eq_nil_iff {g : Graph Sub} (hv : g.Valid) {w : WiringMap}
    (h : build_wiring_map g = .ok w) {source : PortRef} :
    w.consumers source = [] ↔ ∀ id e, g.edges.get? id = some e → e.source ≠ source := by
  rw [List.eq_nil_iff_forall_not_mem]
  constructor
  · rintro hnil id e he rfl
    exact hnil e.target ((mem_consumers_iff hv h).mpr ⟨id, e, he, rfl, rfl⟩)
  · intro hall target htarget
    obtain ⟨id, e, he, -, hsource⟩ := (mem_consumers_iff hv h).mp htarget
    exact hall id e he hsource

theorem mem_leaf_ports {g : Graph Sub} (hv : g.Valid) {w : WiringMap}
    (h : build_wiring_map g = .ok w) {order : List String} (horder : topological_sort g = .ok order)
    {ref : PortRef} : ref ∈ leaf_ports g w order ↔ ∃ id node, g.nodes.get? id = some node ∧
      ∃ port ∈ node.out_ports, ref = ⟨node.id, port.id⟩ ∧
        ∀ id e, g.edges.get? id = some e → e.source ≠ ref := by
  have hmem : ∀ {id}, id ∈ order ↔ id ∈ g.nodes.keys :=
    (topological_sort_eq_ok hv horder).1.mem_iff
  rw [leaf_ports, List.mem_flatMap]
  constructor
  · rintro ⟨id, -, href⟩
    cases hnode : g.nodes.get? id with
    | none =>
        rw [hnode] at href
        cases href
    | some node =>
        rw [hnode] at href
        obtain ⟨hlisted, hleaf⟩ := List.mem_filter.mp href
        obtain ⟨port, hport, rfl⟩ := List.mem_map.mp hlisted
        rw [List.isEmpty_iff, consumers_eq_nil_iff hv h] at hleaf
        exact ⟨id, node, hnode, port, hport, rfl, hleaf⟩
  · rintro ⟨id, node, hnode, port, hport, rfl, hleaf⟩
    refine ⟨id, hmem.mpr ((Dict.mem_keys_iff _).mpr ⟨node, hnode⟩), ?_⟩
    rw [hnode]
    refine List.mem_filter.mpr ⟨List.mem_map.mpr ⟨port, hport, rfl⟩, ?_⟩
    rw [List.isEmpty_iff, consumers_eq_nil_iff hv h]
    exact hleaf

/-- The dictionary holds the results at the OUT ports that no edge leaves, each under its
variable, and nothing else. -/
def Returns (l : Language V C ε) (g : Graph Sub) (results : Results V) (out : Dict String V) :
    Prop :=
  ∀ name value, out.get? name = some value ↔ ∃ id node, g.nodes.get? id = some node ∧
    ∃ port ∈ node.out_ports, (∀ id e, g.edges.get? id = some e → e.source ≠ ⟨node.id, port.id⟩) ∧
      var_for (build_name_map l.nfkd l.blake2s g []) ⟨node.id, port.id⟩ = some name ∧
        (results.get? node.id).bind (·.get? port.name) = some value

/-- The variables of a run that came to its end hold what `main` returns. -/
theorem returns_of_holds {n : Nat} {g : Graph (Nested n)} {w : WiringMap}
    {overrides : Dict String ParamValue} (hfits : (top l g w overrides).Fits l)
    {order : List String} (horder : topological_sort g = .ok order) {results : Results V}
    {frame : Frame V} (h : (top l g w overrides).Holds l [] results frame)
    (hall : ∀ id ∈ g.nodes.keys, (results.get? id).isSome) :
    ∃ out, ((((leaf_ports g w order).map fun ref => (var_for (build_name_map l.nfkd l.blake2s g [])
        ref).getD "").mapM fun name => (lookup [frame] name).map (name, ·)).bind
          fun values => some (Dict.ofList values)) = some out ∧ Returns l g results out := by
  have hv : g.Valid := hfits.sound.valid
  have hmem := @mem_leaf_ports _ g hv w hfits.wired order horder
  obtain ⟨reserved, hnamed⟩ := hfits.named
  have hnamed : Named g reserved (build_name_map l.nfkd l.blake2s g []) := hnamed
  -- the variable of a leaf is bound
  have hleaf : ∀ ref ∈ leaf_ports g w order, ∃ name value,
      var_for (build_name_map l.nfkd l.blake2s g []) ref = some name ∧
        lookup [frame] name = some value := by
    intro ref href
    obtain ⟨id, node, hnode, port, hport, rfl, -⟩ := hmem.mp href
    obtain ⟨name, hname⟩ := hnamed.named hnode port hport
    have hkey : node.id ∈ g.nodes.keys := by
      rw [hv.node_id hnode]
      exact (Dict.mem_keys_iff _).mpr ⟨node, hnode⟩
    obtain ⟨outputs, houtputs⟩ := Option.isSome_iff_exists.mp (hall _ hkey)
    obtain ⟨value, hvalue⟩ :=
      Option.isSome_iff_exists.mp (h.complete hnode houtputs port hport)
    refine ⟨name, value, hname, ?_⟩
    rw [lookup_local (h.locals hname), h.holds hnode port hport hname, houtputs]
    exact hvalue
  have hsome : (((leaf_ports g w order).map fun ref =>
      (var_for (build_name_map l.nfkd l.blake2s g []) ref).getD "").mapM fun name =>
        (lookup [frame] name).map (name, ·)).isSome := by
    rw [mapM_isSome_iff, List.forall_mem_map]
    intro ref href
    obtain ⟨name, value, hname, hvalue⟩ := hleaf ref href
    rw [hname, Option.getD_some, hvalue]
    rfl
  obtain ⟨pairs, hpairs⟩ := Option.isSome_iff_exists.mp hsome
  refine ⟨_, by rw [hpairs, Option.bind_some], fun name value => ?_⟩
  -- a name stands with one value at most: what it is bound to
  have hpair : ∀ e ∈ pairs, lookup [frame] e.1 = some e.2 := by
    intro e he
    obtain ⟨name, -, hname⟩ := mem_right_of_mapM hpairs he
    obtain ⟨value, hvalue, rfl⟩ := Option.map_eq_some_iff.mp hname
    exact hvalue
  constructor
  · intro hget
    obtain ⟨name', hname', heq⟩ := mem_right_of_mapM hpairs (Dict.mem_of_get?_ofList hget)
    obtain ⟨value', hvalue, heq⟩ := Option.map_eq_some_iff.mp heq
    obtain ⟨rfl, rfl⟩ := Prod.mk.inj heq
    obtain ⟨ref, href, hvar⟩ := List.mem_map.mp hname'
    obtain ⟨name, -, hname, -⟩ := hleaf ref href
    rw [hname, Option.getD_some] at hvar
    subst hvar
    obtain ⟨id, node, hnode, port, hport, rfl, hlast⟩ := hmem.mp href
    refine ⟨id, node, hnode, port, hport, hlast, hname, ?_⟩
    have hlookup : lookup [frame] _ = frame.value? _ := lookup_local (h.locals hname)
    rw [← h.holds hnode port hport hname, ← hlookup]
    exact hvalue
  · rintro ⟨id, node, hnode, port, hport, hlast, hname, hvalue⟩
    have href := hmem.mpr ⟨id, node, hnode, port, hport, rfl, hlast⟩
    have hthere : name ∈ (leaf_ports g w order).map fun ref =>
        (var_for (build_name_map l.nfkd l.blake2s g []) ref).getD "" :=
      List.mem_map.mpr ⟨_, href, by rw [hname, Option.getD_some]⟩
    obtain ⟨e, he, heq⟩ := mem_left_of_mapM hpairs hthere
    obtain ⟨value', -, rfl⟩ := Option.map_eq_some_iff.mp heq
    obtain ⟨value', hvalue'⟩ := Dict.get?_ofList_of_mem (List.mem_map.mpr ⟨_, he, rfl⟩)
    have hbound := hpair _ (Dict.mem_of_get?_ofList hvalue')
    rw [lookup_local (h.locals hname), h.holds hnode port hport hname, hvalue,
      Option.some.injEq] at hbound
    rw [hbound]
    exact hvalue'

end Returns

/-! ## `main` and `execute` -/

section Agreement

variable {l : Language V C ε} {v : Validator} {n : Nat} {g : Graph (Nested n)}

/-- `compile_to_code` on a graph that passes the gate. -/
theorem compile_eq (h : Compilable l (l.kwargs g) n [] g) (hgate : v.passes n g = true)
    {w : WiringMap} (hw : build_wiring_map g = .ok w) {order : List String}
    (horder : topological_sort g = .ok order) :
    (l.compile v n g).toOption =
      ((l.assembler n).assemble g Dict.empty (l.kwargs g)).toOption.map fun m =>
        ⟨keywords l g, body m.fragments, (leaf_ports g w order).map fun ref =>
          (var_for (build_name_map l.nfkd l.blake2s g []) ref).getD ""⟩ := by
  have hleaf : (leaf_ports g w order).mapM (find_var (build_name_map l.nfkd l.blake2s g [])) =
      .ok ((leaf_ports g w order).map fun ref =>
        (var_for (build_name_map l.nfkd l.blake2s g []) ref).getD "") := by
    refine Checks.mapM_eq_map fun ref href => ?_
    obtain ⟨id, node, hnode, port, hport, rfl, -⟩ :=
      (mem_leaf_ports h.sound.valid hw horder).mp href
    obtain ⟨name, hname⟩ := (named_of_apart h.apart).named hnode port hport
    rw [find_var, hname]
    rfl
  cases hassemble : (l.assembler n).assemble g Dict.empty (l.kwargs g) with
  | error e =>
      have hcompile : l.compile v n g = .error e := by
        rw [Language.compile, hgate]
        exact Checks.bind_eq_error.mpr (.inr ⟨(), rfl, Checks.bind_eq_error.mpr (.inl hassemble)⟩)
      rw [hcompile]
      rfl
  | ok m =>
      have hdefaults : m.graph_param_defaults = keywords l g := by
        obtain ⟨p, -, hrest⟩ := Checks.bind_eq_ok.mp hassemble
        obtain ⟨fragments, -, hrest⟩ := Checks.bind_eq_ok.mp hrest
        obtain ⟨defaults, hparams, hpure⟩ := Checks.bind_eq_ok.mp hrest
        rw [param_defaults_eq g fun name hname => mem_keys_kwargs.mpr hname, Except.ok.injEq]
          at hparams
        cases hpure
        exact hparams.symm
      have hcompile : l.compile v n g = .ok ⟨keywords l g, body m.fragments,
          (leaf_ports g w order).map fun ref =>
            (var_for (build_name_map l.nfkd l.blake2s g []) ref).getD ""⟩ := by
        rw [Language.compile, hgate, ← hdefaults]
        refine Checks.bind_eq_ok.mpr ⟨(), rfl, Checks.bind_eq_ok.mpr ⟨m, hassemble, ?_⟩⟩
        refine Checks.bind_eq_ok.mpr ⟨order, by rw [horder]; rfl, ?_⟩
        exact Checks.bind_eq_ok.mpr ⟨w, by rw [hw]; rfl, Checks.bind_eq_ok.mpr
          ⟨_, by rw [hleaf]; rfl, rfl⟩⟩
      rw [hcompile]
      rfl

/-- `main` runs its body and looks up what it returns. -/
theorem main_eq (l : Language V C ε) (p : Main V) (given : Dict String ParamValue) :
    l.main p given = (l.main_frame p given).bind fun frame =>
      (p.leaf_vars.mapM fun name => (lookup [frame] name).map (name, ·)).bind fun values =>
        some (Dict.ofList values) := by
  rw [Language.main, Language.main_frame, guard]
  split
  · show _ = Option.bind (Option.bind (Frame.enter _ _ _) _) _
    rw [Option.bind_assoc]
    rfl
  · rfl

/-- The keywords of a run are keywords of `main`. -/
theorem main_frame_eq (l : Language V C ε) (g : Graph (Nested n)) (b : Command NodeCall Arg V)
    (leaf_vars : List String) (overrides : Dict String ParamValue) :
    l.main_frame ⟨keywords l g, b, leaf_vars⟩ (l.given g overrides) =
      (Frame.enter ((keywords l g).map Prod.fst) b.assigned
        ((keywords l g).map fun k => l.literal (((l.given g overrides).get? k.1).getD k.2))).bind
          (l.machine.run [] b) := by
  have hgiven : ∀ name ∈ (l.given g overrides).keys, name ∈ (keywords l g).map Prod.fst := by
    intro name hname
    obtain ⟨value, hvalue⟩ := (Dict.mem_keys_iff _).mp hname
    obtain ⟨e, he, heq⟩ := List.mem_filterMap.mp (Dict.mem_of_get?_ofList hvalue)
    obtain ⟨value', -, heq⟩ := Option.map_eq_some_iff.mp heq
    cases heq
    rw [names_keywords]
    exact List.mem_map_of_mem he
  rw [Language.main_frame, guard, if_pos hgiven]
  rfl

/-- The graph of a run, with everything its program needs, and where the run came to: the
variables hold the results of all nodes. -/
structure Reached (l : Language V C ε) (g : Graph (Nested n)) (overrides : Dict String ParamValue)
    (w : WiringMap) (order : List String) (results : Results V) (frame : Frame V) : Prop where
  fits : (top l g w overrides).Fits l
  order : topological_sort g = .ok order
  holds : (top l g w overrides).Holds l [] results frame
  all : ∀ id ∈ g.nodes.keys, (results.get? id).isSome

/-- `execute` comes to its end just when the body of `main` does, and then the variables
hold its results. -/
theorem frame_agrees (h : Compilable l (l.kwargs g) n [] g) (hfree : KeywordsFree l g)
    {params : Option (Dict String ParamValue)}
    (hknown : ∀ name ∈ (params.getD Dict.empty).keys, name ∈ g.params.keys)
    (hregated : v.passes n g = true → ∀ m, materialize_if_needed n g params = .ok m →
      v.passes n m = true) :
    Option.Rel (fun results run => ∃ w order,
        run.1.leaf_vars = (leaf_ports g w order).map (fun ref =>
          (var_for (build_name_map l.nfkd l.blake2s g []) ref).getD "") ∧
        Reached l g (params.getD Dict.empty) w order results run.2)
      (execute l.runtime v.passes (fun _ => l.behaviour) l.clients n g params).toOption
      ((l.compile v n g).toOption.bind fun p =>
        (l.main_frame p (l.given g (params.getD Dict.empty))).map (p, ·)) := by
  cases hgate : v.passes n g with
  | false =>
      rw [execute, Language.compile, hgate]
      exact .none
  | true =>
      have hgated := Validator.gated hgate
      obtain ⟨w, hw⟩ := build_wiring_map_of_cardinality hgated.cardinality
      obtain ⟨order, horder⟩ := hgated.order
      have hm := materialize_eq hgated.refs hknown
      have hfits := top_fits h hfree hgated.refs hw (params.getD Dict.empty)
      have hexecute : (execute l.runtime v.passes (fun _ => l.behaviour) l.clients n g params
          ).toOption = ((nested_executor l.runtime (fun _ => l.behaviour) l.clients n
            ).execute_functional (g.map_nodes
              (bake_node (resolved g (params.getD Dict.empty)) n)) Dict.empty).toOption := by
        rw [execute, hgate, hm, ← bake_eq_map_nodes]
        show ((Checks.guard (v.passes n _) _ >>= _) : Except _ _).toOption = _
        rw [hregated hgate _ hm]
        rfl
      have hpair : (top l g w (params.getD Dict.empty)).Pair l (l.assembler n)
          (nested_executor l.runtime (fun _ => l.behaviour) l.clients n) := by
        cases n <;> exact ⟨rfl, rfl, fun _ => rfl, rfl, rfl, rfl⟩
      have hagrees : (top l g w (params.getD Dict.empty)).Agrees l
          (bake_node (resolved g (params.getD Dict.empty)) n) (l.assembler n)
          (nested_executor l.runtime (fun _ => l.behaviour) l.clients n) :=
        Compilable.agrees h hfits hpair rfl led_kwargs
          (fun name hname => mem_keys_kwargs.mpr hname) fun ref href =>
            ⟨href, mem_keys_kwargs.mpr (mem_of_refers hgated.refs href)⟩
      have hruns := hagrees.runs (top_starts (w := w) h hfree hgated.refs (params.getD Dict.empty))
      rw [hexecute, compile_eq h hgate hw horder, Option.bind_map]
      simp only [Function.comp_def, main_frame_eq]
      refine bind_map hruns ?_
      intro results m frame hrun
      exact ⟨w, order, rfl, hfits, horder, hrun.1, hrun.2⟩

end Agreement

/-! ## A run with an override -/

theorem Sound.of_values {g : Graph Sub} (hv : g.Valid) (h : ∀ node ∈ g.nodes.values, Tidy node) :
    Sound g :=
  ⟨hv, fun {id node} hnode => h node ((Dict.mem_values_iff _).mpr ⟨id, hnode⟩)⟩

/-- Names that nothing collides with need no suffix. -/
theorem apart_of_distinct {blake2s : Blake2s} {entries : List PortEntry} {reserved : List String}
    (h : ∀ e ∈ entries, collides entries reserved e = false) :
    Separable blake2s entries reserved := by
  have hnone : ∀ {e}, e ∈ entries → ¬ collides entries reserved e = true := fun he => by
    rw [h _ he]
    decide
  refine .inl ⟨4, by decide, ⟨?_, fun e he _ _ hc => absurd hc (hnone he)⟩, fun k hk hlt => ?_,
    fun e he hc => absurd hc (hnone he)⟩
  · refine List.pairwise_iff_forall_sublist.mpr fun hpair heq => ?_
    exact absurd (collides_of_pair hpair heq).1 (hnone (hpair.subset (List.mem_cons_self ..)))
  · omega

namespace Scaled

def definition (type : String) : Option NodeDefinition :=
  if type = "load" then some { type, ports := [{ name := "out", direction := .OUT }] }
  else if type = "scale" then some {
    type
    ports := [{ name := "x", direction := .IN }, { name := "y", direction := .OUT }]
    params := [{ name := "by", type_token := "int", ref_supported := true }] }
  else none

def validator : Validator where
  registry := definition
  types := .new
  infer_types := fun _ _ types => types
  validity := fun _ _ => .ok []
  repr := id

def integer : ParamValue → Int
  | .int i => i
  | _ => 0

/-- `load` gives its value, `scale` multiplies by its own. -/
def language : Language Int Unit Unit where
  runtime := ⟨definition, 0, List.sum⟩
  literal := integer
  function := fun type inputs params _ =>
    if type = "load" then .ok fun _ => (params "value").getD 0
    else .ok fun _ => inputs "x" * (params "by").getD 1
  clients := {}
  nfkd := id
  blake2s := digest_abc

/-- A node that scales by the graph param of this name. -/
def inner (param : String) : Graph (Nested 0) where
  nodes := Dict.ofList [
    ("a", {
      id := "a"
      type := "scale"
      ports := [⟨"i", "x", .IN, "any", .ONE, none⟩, ⟨"o", "y", .OUT, "any", .ONE, none⟩]
      params := [{ name := "by", type_token := "int", ref := some param }] })]

def source : Node (Nested 1) where
  id := "s"
  type := "load"
  ports := [⟨"o", "out", .OUT, "any", .ONE, none⟩]
  params := [{ name := "value", type_token := "int", value := .int 4 }]

def block (param : String) : Node (Nested 1) where
  id := "c"
  type := COMPOSITE_NODE_TYPE
  ports := [⟨"i", "in", .IN, "any", .ONE, none⟩, ⟨"o", "out", .OUT, "any", .ONE, none⟩]
  subgraph := some (inner param)

/-- The value 4, scaled inside a composite; the param has the value 3. -/
def graph (param : String) : Graph (Nested 1) where
  nodes := Dict.ofList [("s", source), ("c", block param)]
  edges := Dict.ofList [("e", { id := "e", source := ⟨"s", "o"⟩, target := ⟨"c", "i"⟩ })]
  params := Dict.ofList [(param, { name := param, type_token := "int", value := .int 3 })]

theorem compilable : Compilable language (language.kwargs (graph "rate")) 1 [] (graph "rate") := by
  constructor
  · exact Sound.of_values (Graph.validate_structure_eq_ok.mp rfl) (by decide +kernel)
  · exact apart_of_distinct (by decide +kernel)
  · intro id node sub hnode htype hsub
    have hnodes : (graph "rate").nodes.values = [source, block "rate"] := rfl
    have hmem := (Dict.mem_values_iff _).mpr ⟨id, hnode⟩
    rw [hnodes, List.mem_cons, List.mem_singleton] at hmem
    obtain rfl : sub = inner "rate" := by
      rcases hmem with rfl | rfl
      · cases hsub
      · cases hsub
        rfl
    refine ⟨⟨fun name hname => absurd hname List.not_mem_nil, ?_⟩, ?_, ?_, fun _ _ _ => trivial⟩
    · intro s hs ref kwarg href hkwarg i hi
      rintro rfl
      have hvalues : (language.kwargs (graph "rate")).values = ["rate"] := by decide +kernel
      have hmem := (Dict.mem_values_iff _).mpr ⟨ref, hkwarg⟩
      rw [hvalues, List.mem_singleton] at hmem
      have hhead := head_formal i
      rw [hmem] at hhead
      cases hhead
    · exact Sound.of_values (Graph.validate_structure_eq_ok.mp rfl) (by decide +kernel)
    · exact apart_of_distinct (by decide +kernel)

theorem keywords_free : KeywordsFree language (graph "rate") :=
  (name_params_safe_iff _ _).mp ⟨by decide +kernel, by decide +kernel⟩

/-- A param named `p0` cannot be told from the first parameter of the function: `main`
squares the value, `execute` scales it. -/
example :
    ((language.compile validator 1 (graph "p0")).toOption.bind fun p =>
      language.main p Dict.empty) = some (Dict.ofList [("layout_composite_out", 16)]) ∧
    (execute language.runtime validator.passes (fun _ => language.behaviour) language.clients 1
      (graph "p0") none).toOption = some (Dict.ofList [("s", Dict.ofList [("out", 4)]),
        ("c", Dict.ofList [("out", 12)])]) := ⟨rfl, rfl⟩

end Scaled

end EmergentFlow.Program
