import EmergentFlow.Server.CacheWiring

/-!
# Server — CacheSoundness

Cached runs against uncached ones. Where nodes that are wired alike read the
same OUT ports, a cached run and an uncached one yield the same events,
whatever ran before and whatever was evicted in between (`cache_soundness`).

The text does not say which OUT port of an upstream node feeds a port, so
two readers of different ports of one node can share a key
(`split_ports_share_key`).
-/

namespace EmergentFlow

variable {Sub V C ε : Type} {sv : Server Sub V C ε} {l : List (CachedRun sv)}

/-! ## The invariant of a cached walk -/

/-- The hashes of a walk stand for its results, and so do the keys of the
cache. `static` is the table of hashes of a run without failures. -/
structure Hashed (l : List (CachedRun sv)) (static : Dict String (Option String))
    {call : Behaviour Sub V C ε} (st : WalkState (sv.behaving call)) : Prop where
  keyed : ∀ id key, st.node_hashes.get? id = some (some key) →
    static.get? id = some (some key) ∧
      ∃ outputs, st.node_results.get? id = some outputs ∧ Denotes sv l key outputs
  cache : ∀ key outputs, sv.cache.view st.cache key = some outputs → Denotes sv l key outputs

section Bound

variable {g : Graph Sub} {w : WiringMap} {order done : List String} {id : String}
  {node : Node Sub} {static : Dict String (Option String)} {call : Behaviour Sub V C ε}
  {st : WalkState (sv.behaving call)} {f : String → (String → Option ParamValue) →
    (String → Option V) → Option C → Except ε (Dict String V)}

variable (hinj : Collisionless sv l) (hkeys : KeysTell sv l)
  (hpure : ∀ r ∈ l, Behaviour.PureOn sv.runtime.registry f r.call)
include hinj hkeys hpure

/-- A source with a hash has the hash of the table, and the results that it denotes. -/
theorem Hashed.source (hh : Hashed l static st) {src : PortRef} {key : String}
    (hhash : (st.node_hashes.get? src.node_id).join = some key) :
    (static.get? src.node_id).join = some key ∧ Denotes sv l key (meaning_of sv l key) ∧
      st.node_results.get? src.node_id = some (meaning_of sv l key) := by
  obtain ⟨hstatic, outputs, hresults, hdenotes⟩ := hh.keyed _ _ (Option.join_eq_some_iff.mp hhash)
  have hmeaning := denotes_meaning_of hdenotes
  have heq := hdenotes.unique hinj hkeys hpure hmeaning
  exact ⟨Option.join_eq_some_iff.mpr hstatic, hmeaning, heq ▸ hresults⟩

/-- Inputs whose sources all have hashes are those that the ingredients stand for. -/
theorem Hashed.inputs_eq (hh : Hashed l static st) (ht : Tables done st) {v : PortRef → V}
    (hv : ∀ port ∈ node.in_ports, ∀ src ∈ g.port_sources id port,
      st.value g src = .ok (some (v src)))
    (hhashed : ∀ port ∈ node.in_ports, ∀ src ∈ g.port_sources id port,
      ∃ key, (st.node_hashes.get? src.node_id).join = some key) :
    (bound_inputs sv.runtime (g.port_sources id) v Dict.empty node.in_ports).get? =
      (g.ingredients static id node).inputs sv.runtime (meaning_of sv l) := by
  have hfold : bound_inputs sv.runtime (g.port_sources id) v Dict.empty node.in_ports =
      Dict.ofList (node.in_ports.map fun port => (port.name,
        port_value sv.runtime port.cardinality ((g.port_sources id port).map v))) := by
    rw [bound_inputs, Dict.ofList, List.foldl_map]
  have hports : node.in_ports.map (fun port => (port.name,
      port_value sv.runtime port.cardinality ((g.port_sources id port).map v))) =
      (node.in_ports.map fun port => (port.name, port.cardinality,
        (g.port_sources id port).map fun src =>
          ((static.get? src.node_id).join, (g.source_port_name src).toOption))).map
        fun e => (e.1, port_value sv.runtime e.2.1
          (e.2.2.map (source_meaning sv.runtime (meaning_of sv l)))) := by
    rw [List.map_map]
    apply List.map_congr_left
    intro port hport
    simp only [Function.comp_apply, List.map_map, Prod.mk.injEq, true_and]
    congr 1
    apply List.map_congr_left
    intro src hsrc
    obtain ⟨key, hhash⟩ := hhashed port hport src hsrc
    obtain ⟨hstatic, -, hresults⟩ := hh.source hinj hkeys hpure hhash
    obtain ⟨port_name, hname, hget⟩ := ht.source_value hresults (hv port hport src hsrc)
    simp [source_meaning, hstatic, hname, hget, Except.toOption]
  funext name
  rw [hfold, hports, Dict.get?_ofList_map (fun p : Cardinality × List _ =>
    port_value sv.runtime p.1 (p.2.map (source_meaning sv.runtime (meaning_of sv l))))]
  rfl

/-- A node with a key is bound to the hashes of the table, and to the
inputs that these hashes denote. -/
theorem Hashed.bound (hh : Hashed l static st) (ht : Tables done st)
    (hwired : Wired w node (g.port_sources id) node.in_ports) {bound : Bound V}
    (hbind : st.binding g w node = .ok bound) {text : String}
    (htext : sv.key_text node bound.upstream_hashes = some text) :
    bound.upstream_hashes = bound_hashes (g.port_sources id) static node.in_ports ∧
      bound.inputs.get? = (g.ingredients static id node).inputs sv.runtime (meaning_of sv l) ∧
      ∀ name cardinality sources,
        (g.ingredients static id node).ports name = some (cardinality, sources) →
          ∀ hash port, (some hash, port) ∈ sources →
            Denotes sv l hash (meaning_of sv l hash) := by
  obtain ⟨v, hv⟩ := exists_values sv.runtime (value_of_bind_ports hwired hbind)
  have hbound : st.binding g w node = .ok {
      inputs := bound_inputs sv.runtime (g.port_sources id) v Dict.empty node.in_ports
      upstream_hashes := bound_hashes (g.port_sources id) st.node_hashes node.in_ports } :=
    bind_ports_of_values hwired hv {}
  rw [hbound, Except.ok.injEq] at hbind
  subst hbind
  have hdefined := (Server.key_text_eq_some htext).2
  -- a key asks for the hash of every source
  have hhashed : ∀ port ∈ node.in_ports, ∀ src ∈ g.port_sources id port,
      ∃ key, (st.node_hashes.get? src.node_id).join = some key := by
    intro port hport src hsrc
    have hmem : tagged_hash port.name (st.node_hashes.get? src.node_id).join ∈
        bound_hashes (g.port_sources id) st.node_hashes node.in_ports :=
      List.mem_flatMap.mpr ⟨port, hport, List.mem_map.mpr ⟨src, hsrc, rfl⟩⟩
    have hsome := hdefined _ hmem
    rwa [tagged_hash, Option.isSome_map, Option.isSome_iff_exists] at hsome
  refine ⟨?_, hh.inputs_eq hinj hkeys hpure ht hv hhashed, ?_⟩
  · apply bound_hashes_congr
    intro port hport src hsrc
    obtain ⟨key, hhash⟩ := hhashed port hport src hsrc
    rw [hhash, (hh.source hinj hkeys hpure hhash).1]
  · intro name cardinality sources hentry hash port_name hmem
    obtain ⟨port, hport, heq⟩ := List.mem_map.mp (Dict.mem_of_get?_ofList hentry)
    simp only [Prod.mk.injEq] at heq
    obtain ⟨-, -, rfl⟩ := heq
    obtain ⟨src, hsrc, heq⟩ := List.mem_map.mp hmem
    obtain ⟨key, hhash⟩ := hhashed port hport src hsrc
    obtain ⟨hstatic, hdenotes, -⟩ := hh.source hinj hkeys hpure hhash
    rw [hstatic, Prod.mk.injEq, Option.some.injEq] at heq
    exact heq.1 ▸ hdenotes

end Bound

/-! ## One step -/

section Step

variable {r : CachedRun sv} {w : WiringMap} {order done : List String} {id : String}
  {node : Node Sub} {st : WalkState (sv.behaving r.call)} {f : String →
    (String → Option ParamValue) → (String → Option V) → Option C → Except ε (Dict String V)}

variable (hinj : Collisionless sv l) (hkeys : KeysTell sv l)
  (hpure : ∀ r ∈ l, Behaviour.PureOn sv.runtime.registry f r.call)
include hinj hkeys hpure

/-- A node with a key is an entry of the run, bound to what its ingredients
stand for. -/
theorem Hashed.entry (hh : Hashed l (sv.static_hashes r.graph order Dict.empty) st)
    (ht : Tables done st) (hprepare : sv.prepare r.graph r.only = .ok (order, w))
    (hs : Scope r.graph w order) (hid : id ∈ order) (hnode : r.graph.nodes.get? id = some node)
    {bound : Bound V} (hbind : st.binding r.graph w node = .ok bound) {text : String}
    (htext : sv.key_text node bound.upstream_hashes = some text) :
    ∃ ingredients, r.Entry id node text ingredients ∧
      bound.inputs.get? = ingredients.inputs sv.runtime (meaning_of sv l) ∧
      (∀ name cardinality sources, ingredients.ports name = some (cardinality, sources) →
        ∀ hash port, (some hash, port) ∈ sources → Denotes sv l hash (meaning_of sv l hash)) ∧
      (sv.static_hashes r.graph order Dict.empty).get? id =
        some (some (sv.hashing.sha256 text)) := by
  have hstatic : Hashes sv r.graph order (sv.static_hashes r.graph order Dict.empty) :=
    Server.static_hashes_spec hs order (List.nil_append order).symm
      ⟨by simp, fun id _ => Dict.get?_empty id⟩
  obtain ⟨hhashes, hinputs, hsources⟩ :=
    hh.bound hinj hkeys hpure ht (hs.wired id node hnode) hbind htext
  rw [hhashes] at htext
  refine ⟨_, ⟨hnode, order, w, hprepare, hid, htext, rfl⟩, hinputs, hsources, ?_⟩
  rw [hstatic.listed id hid node hnode, Server.node_key_eq, htext]
  rfl

/-- What the cache holds under the key of a node is what running it
returns. -/
theorem Hashed.transparent (hr : r ∈ l)
    (hh : Hashed l (sv.static_hashes r.graph order Dict.empty) st) (ht : Tables done st)
    (hprepare : sv.prepare r.graph r.only = .ok (order, w)) (hs : Scope r.graph w order)
    (hid : id ∈ order) (hnode : r.graph.nodes.get? id = some node) :
    Transparent r.graph w node st := by
  intro bound key outputs hbind hkey hfound
  have hkey' : (sv.key_text node bound.upstream_hashes).map sv.hashing.sha256 = some key :=
    (Server.node_key_eq sv node bound.upstream_hashes).symm.trans hkey
  obtain ⟨text, htext, rfl⟩ := Option.map_eq_some_iff.mp hkey'
  obtain ⟨ingredients, entry, hinputs, hsources, -⟩ :=
    hh.entry hinj hkeys hpure ht hprepare hs hid hnode hbind htext
  -- the cached result comes from a node with the same key
  have hdenotes := hh.cache _ _ hfound
  generalize hhash : sv.hashing.sha256 text = key at hdenotes
  cases hdenotes with
  | @intro r' hr' id' node' text' ingredients' entry' meaning' upstream' inputs' _ bound' run' =>
      obtain rfl := entry.same_ingredients hinj hkeys hr hr' entry' hhash
      have hsame : bound.inputs.get? = inputs'.get? := by
        rw [hinputs, bound']
        apply Ingredients.inputs_congr
        intro name cardinality sources hport hash port hmem
        exact (hsources name cardinality sources hport hash port hmem).unique hinj hkeys hpure
          (upstream' name cardinality sources hport hash port hmem)
      rw [entry.same_run hpure hr hr' entry' hsame, run']

/-- A visit keeps the invariant. -/
theorem Hashed.next (hr : r ∈ l)
    (hh : Hashed l (sv.static_hashes r.graph order Dict.empty) st) (ht : Tables done st)
    (hprepare : sv.prepare r.graph r.only = .ok (order, w)) (hs : Scope r.graph w order)
    (hid : id ∈ order) (hnode : r.graph.nodes.get? id = some node) {total index : Nat}
    {t : Trace (sv.behaving r.call)} (hvisited : Visited r.graph w total index id node st t) :
    Hashed l (sv.static_hashes r.graph order Dict.empty) t.state := by
  cases hvisited with
  | escaped bind | skipped bind => exact ⟨hh.keyed, hh.cache⟩
  | interrupted bind interrupted =>
      exact ⟨hh.keyed, fun key outputs hfound =>
        hh.cache key outputs (congrFun interrupted.kept key ▸ hfound)⟩
  | @ran bound event after bind ran =>
      -- a key that is recorded denotes what is recorded with it
      have hnew : ∀ key outputs, (sv.behaving r.call).node_key node bound.upstream_hashes =
          some key → (sv.behaving r.call).run_node node bound.inputs = .ok outputs →
          (sv.static_hashes r.graph order Dict.empty).get? id = some (some key) ∧
            Denotes sv l key outputs := by
        intro key outputs hkey hrun
        have hkey' : (sv.key_text node bound.upstream_hashes).map sv.hashing.sha256 = some key :=
          (Server.node_key_eq sv node bound.upstream_hashes).symm.trans hkey
        obtain ⟨text, htext, rfl⟩ := Option.map_eq_some_iff.mp hkey'
        obtain ⟨ingredients, entry, hinputs, hsources, hstatic⟩ :=
          hh.entry hinj hkeys hpure ht hprepare hs hid hnode bind htext
        exact ⟨hstatic, .intro hr entry (meaning_of sv l) hsources hinputs hrun⟩
      have hrecord : ∀ (cache : sv.cache.State) (hash : Option String) (outputs : Dict String V)
          (cached : Bool),
          (∀ key, hash = some key → (sv.static_hashes r.graph order Dict.empty).get? id =
            some (some key) ∧ Denotes sv l key outputs) →
          (∀ key outputs, sv.cache.view cache key = some outputs → Denotes sv l key outputs) →
          Hashed l (sv.static_hashes r.graph order Dict.empty) (WalkState.record
            ({ st with artifacts := st.read_artifacts r.graph w node, cache } :
              WalkState (sv.behaving r.call)) id (node.label.getD "") outputs hash cached) := by
        intro cache hash outputs cached hhash hcache
        refine ⟨fun other key hother => ?_, hcache⟩
        by_cases hne : other = id
        · subst hne
          obtain ⟨hstatic, hdenotes⟩ := hhash key
            (Option.some.inj ((Dict.get?_set_self _ _ _).symm.trans hother))
          exact ⟨hstatic, outputs, Dict.get?_set_self _ _ _, hdenotes⟩
        · obtain ⟨hstatic, outputs', hresults, hdenotes⟩ := hh.keyed other key
            ((Dict.get?_set_ne _ _ (Ne.symm hne)).symm.trans hother)
          exact ⟨hstatic, outputs', (Dict.get?_set_ne _ _ (Ne.symm hne)).trans hresults, hdenotes⟩
      cases ran with
      | @failed e cache miss run caught kept =>
          refine ⟨fun other key hother => ?_, fun key outputs hfound => ?_⟩
          · by_cases hne : other = id
            · subst hne
              cases (Dict.get?_set_self _ _ _).symm.trans hother
            · exact hh.keyed other key ((Dict.get?_set_ne _ _ (Ne.symm hne)).symm.trans hother)
          · exact hh.cache key outputs (congrFun kept key ▸ hfound)
      | @hit key outputs cache hash found kept =>
          have htransparent := hh.transparent hinj hkeys hpure hr ht hprepare hs hid hnode
          -- what the cache holds under the key is what a run would have returned
          apply hrecord
          · intro key' hkey'
            obtain rfl := Option.some.inj hkey'
            exact hnew key outputs hash (htransparent bound key outputs bind hash found)
          · intro key' outputs' hfound
            exact hh.cache key' outputs' (congrFun kept key' ▸ hfound)
      | @fresh outputs cache miss run stored =>
          apply hrecord
          · exact fun key hkey => hnew key outputs hkey run
          · intro key' outputs' hfound
            rcases stored key' outputs' hfound with ⟨hkey, rfl⟩ | hbefore
            · exact (hnew key' outputs' hkey run).2
            · exact hh.cache key' outputs' hbefore

/-- A walk keeps the invariant, and yields the events of its twin. -/
theorem Hashed.walk (hr : r ∈ l) (hprepare : sv.prepare r.graph r.only = .ok (order, w))
    (hs : Scope r.graph w order) {total : Nat} (rest : List String) {post : List String}
    {index : Nat} (hsplit : order = done ++ rest ++ post)
    (hh : Hashed l (sv.static_hashes r.graph order Dict.empty) st) (ht : Tables done st)
    {twin : WalkState (sv.behaving r.call).uncached} (htwin : Twin st twin) :
    (walk r.graph w total index rest st).events.map NodeEvent.plain =
        (walk r.graph w total index rest twin).events.map NodeEvent.plain ∧
      (walk r.graph w total index rest st).escaped =
        (walk r.graph w total index rest twin).escaped ∧
      Hashed l (sv.static_hashes r.graph order Dict.empty)
        (walk r.graph w total index rest st).state ∧
      ((walk r.graph w total index rest st).escaped = none →
        Tables (done ++ rest) (walk r.graph w total index rest st).state) := by
  induction rest generalizing done st twin index with
  | nil => exact ⟨rfl, rfl, hh, fun _ => (List.append_nil done).symm ▸ ht⟩
  | cons id rest ih =>
      have hsplit' : order = done ++ id :: (rest ++ post) := by simp [hsplit]
      have hid : id ∈ order := hsplit' ▸ by simp
      obtain ⟨node, hnode⟩ := hs.node id hid
      have hvisited := visit_cases w st hnode total index
      obtain ⟨hevents, hescaped, hnext⟩ := htwin.next (hs.wired id node hnode) hvisited
        (visit_cases w twin hnode total index)
        (hh.transparent hinj hkeys hpure hr ht hprepare hs hid hnode)
      have hhnext := hh.next hinj hkeys hpure hr ht hprepare hs hid hnode hvisited
      simp only [EmergentFlow.walk, ← hescaped]
      cases hstay : (visit r.graph w total index id st).escaped with
      | some stop =>
          refine ⟨hevents, hescaped, hhnext, fun hnone => ?_⟩
          rw [hstay] at hnone
          cases hnone
      | none =>
          have htnext := hvisited.tables hstay (hs.fresh hsplit') ht
          obtain ⟨hevents', hescaped', hhend, htend⟩ :=
            @ih (done ++ [id]) _ (index + 1) (by simp [hsplit]) hhnext htnext _ hnext
          refine ⟨?_, hescaped', hhend, fun hnone => ?_⟩
          · simp only [List.map_append, hevents, hevents']
          · have := htend hnone
            rwa [List.append_assoc] at this

end Step

/-! ## Whole histories -/

/-- The state a run starts in. -/
def CachedRun.start (r : CachedRun sv) : WalkState (sv.behaving r.call) where
  cache := r.cache
  artifacts := r.artifacts

/-- The state its twin starts in. -/
def CachedRun.twin_start (r : CachedRun sv) : WalkState (sv.behaving r.call).uncached where
  cache := ()
  artifacts := r.artifacts

/-- The key a run computes for a node: in the state before its visit, on
the inputs it is bound to. -/
structure CachedRun.Keyed (r : CachedRun sv) (id : String) (node : Node Sub)
    (inputs : Dict String V) (key : String) : Prop where
  found : r.graph.nodes.get? id = some node
  visited : ∃ order w pre post bound, sv.prepare r.graph r.only = .ok (order, w) ∧
    order = pre ++ id :: post ∧
    (walk r.graph w order.length 1 pre r.start).escaped = none ∧
    (walk r.graph w order.length 1 pre r.start).state.binding r.graph w node = .ok bound ∧
    bound.inputs = inputs ∧ sv.node_key node bound.upstream_hashes = some key

/-- No run of the list is led astray by the cache. -/
structure CacheSound (sv : Server Sub V C ε) (l : List (CachedRun sv)) : Prop where
  /-- A run without the cache yields the same events. -/
  events : ∀ r ∈ l, ∃ t,
    (sv.behaving r.call).uncached.stream r.graph r.only () r.artifacts = .ok t ∧
      r.trace.events.map NodeEvent.plain = t.events.map NodeEvent.plain ∧
        r.trace.escaped = t.escaped
  /-- Nodes with the same key have the same type, params and inputs. -/
  keys : ∀ r ∈ l, ∀ r' ∈ l, ∀ id node inputs id' node' inputs' key,
    r.Keyed id node inputs key → r'.Keyed id' node' inputs' key →
      node.type = node'.type ∧ node.param_values.get? = node'.param_values.get? ∧
        inputs.get? = inputs'.get?

/-- What the cache holds under a key is what the key denotes. -/
def CacheFaithful (sv : Server Sub V C ε) (l : List (CachedRun sv)) (c : sv.cache.State) : Prop :=
  ∀ key outputs, sv.cache.view c key = some outputs → Denotes sv l key outputs

section History

variable {f : String → (String → Option ParamValue) → (String → Option V) → Option C →
    Except ε (Dict String V)} {r : CachedRun sv}
  (hinj : Collisionless sv l) (hkeys : KeysTell sv l)
  (hpure : ∀ r ∈ l, Behaviour.PureOn sv.runtime.registry f r.call)

include hinj hkeys hpure

/-- The first visits of a run that starts from a faithful cache. -/
theorem CacheFaithful.first_visits (hr : r ∈ l) (h : CacheFaithful sv l r.cache) {w : WiringMap}
    {order pre post : List String} (hprepare : sv.prepare r.graph r.only = .ok (order, w))
    (hs : Scope r.graph w order) (hsplit : order = pre ++ post) (total : Nat) :
    (walk r.graph w total 1 pre r.start).events.map NodeEvent.plain =
        (walk r.graph w total 1 pre r.twin_start).events.map NodeEvent.plain ∧
      (walk r.graph w total 1 pre r.start).escaped =
        (walk r.graph w total 1 pre r.twin_start).escaped ∧
      Hashed l (sv.static_hashes r.graph order Dict.empty)
        (walk r.graph w total 1 pre r.start).state ∧
      ((walk r.graph w total 1 pre r.start).escaped = none →
        Tables pre (walk r.graph w total 1 pre r.start).state) := by
  have hh : Hashed l (sv.static_hashes r.graph order Dict.empty) r.start :=
    ⟨fun id key hkey => by simp [CachedRun.start] at hkey, h⟩
  have ht : Tables [] r.start :=
    ⟨fun id => by simp [CachedRun.start], fun id => by simp [CachedRun.start]⟩
  have htwin : Twin r.start r.twin_start := ⟨fun _ => ⟨rfl, rfl⟩, rfl⟩
  exact hh.walk hinj hkeys hpure hr hprepare hs pre hsplit ht htwin

/-- A run that starts from a faithful cache leaves one, and yields the
events of its twin. -/
theorem CacheFaithful.run (hr : r ∈ l) (hvalid : r.graph.Valid)
    (h : CacheFaithful sv l r.cache) : CacheFaithful sv l r.trace.state.cache ∧
      ∃ t, (sv.behaving r.call).uncached.stream r.graph r.only () r.artifacts = .ok t ∧
        r.trace.events.map NodeEvent.plain = t.events.map NodeEvent.plain ∧
          r.trace.escaped = t.escaped := by
  obtain ⟨⟨order, w⟩, hprepare, htrace⟩ := Checks.bind_eq_ok.mp r.streamed
  simp only [pure, Except.pure, Except.ok.injEq] at htrace
  have hs := (Server.prepare_scope hvalid hprepare).1
  obtain ⟨hevents, hescaped, hend, -⟩ := h.first_visits hinj hkeys hpure hr hprepare hs
    (List.append_nil order).symm order.length
  rw [show walk r.graph w order.length 1 order r.start = r.trace from htrace]
    at hevents hescaped hend
  refine ⟨hend.cache, _, ?_, hevents, hescaped⟩
  have hsame : (sv.behaving r.call).uncached.prepare r.graph r.only = .ok (order, w) := hprepare
  simp only [Server.stream, hsame]
  rfl

/-- The cache is faithful at the start of every run of a history. -/
theorem CacheHistory.faithful (hvalid : ∀ r ∈ l, r.graph.Valid) {before : List (CachedRun sv)}
    {c : sv.cache.State} (history : CacheHistory sv before c) (hsub : ∀ r ∈ before, r ∈ l) :
    CacheFaithful sv l c ∧ ∀ r ∈ before, CacheFaithful sv l r.cache := by
  induction history with
  | start empty =>
      refine ⟨fun key outputs hfound => ?_, by simp⟩
      rw [empty] at hfound
      cases hfound
  | evicted before fewer ih =>
      obtain ⟨hc, hall⟩ := ih hsub
      exact ⟨fun key outputs hfound => hc key outputs (fewer key outputs hfound), hall⟩
  | @ran runs r before ih =>
      obtain ⟨hc, hall⟩ := ih fun r hmem => hsub r (List.mem_append_left _ hmem)
      have hr : r ∈ l := hsub r (by simp)
      refine ⟨(CacheFaithful.run hinj hkeys hpure hr (hvalid r hr) hc).1, ?_⟩
      intro r' hmem
      rcases List.mem_append.mp hmem with hmem | hmem
      · exact hall r' hmem
      · rw [List.mem_singleton.mp hmem]
        exact hc

/-- A keyed node is an entry, bound to what its ingredients stand for. -/
theorem CachedRun.Keyed.entry (hr : r ∈ l) (hvalid : r.graph.Valid)
    (hfaithful : CacheFaithful sv l r.cache) {id : String} {node : Node Sub}
    {inputs : Dict String V} {key : String} (h : r.Keyed id node inputs key) :
    ∃ text ingredients, sv.hashing.sha256 text = key ∧ r.Entry id node text ingredients ∧
      inputs.get? = ingredients.inputs sv.runtime (meaning_of sv l) := by
  obtain ⟨order, w, pre, post, bound, hprepare, hsplit, hstay, hbind, rfl, hkey⟩ := h.visited
  have hs := (Server.prepare_scope hvalid hprepare).1
  obtain ⟨-, -, hend, htables⟩ :=
    hfaithful.first_visits hinj hkeys hpure hr hprepare hs hsplit order.length
  rw [Server.node_key_eq] at hkey
  obtain ⟨text, htext, rfl⟩ := Option.map_eq_some_iff.mp hkey
  obtain ⟨ingredients, entry, hinputs, -, -⟩ := hend.entry hinj hkeys hpure (htables hstay) hprepare
    hs (hsplit ▸ by simp) h.found hbind htext
  exact ⟨text, ingredients, rfl, entry, hinputs⟩

end History

/-- Where nodes that are wired alike read the same ports, the cache changes nothing. -/
theorem cache_soundness {c : sv.cache.State} (history : CacheHistory sv l c)
    (hvalid : ∀ r ∈ l, r.graph.Valid) (hdoc : sv.hashing.Documented) (hinj : Collisionless sv l)
    {f : String → (String → Option ParamValue) → (String → Option V) → Option C →
      Except ε (Dict String V)}
    (hpure : ∀ r ∈ l, Behaviour.PureOn sv.runtime.registry f r.call)
    (hdist : Distinguished sv l) : CacheSound sv l := by
  have hkeys : KeysTell sv l := keysTell hvalid hdoc hinj hdist
  obtain ⟨-, hfaithful⟩ := history.faithful hinj hkeys hpure hvalid fun r hmem => hmem
  constructor
  · exact fun r hr =>
      (CacheFaithful.run hinj hkeys hpure hr (hvalid r hr) (hfaithful r hr)).2
  · intro r hr r' hr' id node inputs id' node' inputs' key h h'
    obtain ⟨text, ingredients, hkey, entry, hinputs⟩ :=
      h.entry hinj hkeys hpure hr (hvalid r hr) (hfaithful r hr)
    obtain ⟨text', ingredients', hkey', entry', hinputs'⟩ :=
      h'.entry hinj hkeys hpure hr' (hvalid r' hr') (hfaithful r' hr')
    obtain rfl := entry.same_ingredients hinj hkeys hr hr' entry' (hkey.trans hkey'.symm)
    obtain ⟨htype, hparams, -⟩ := entry.definition
    obtain ⟨htype', hparams', -⟩ := entry'.definition
    exact ⟨htype.symm.trans htype', hparams.symm.trans hparams', hinputs.trans hinputs'.symm⟩

/-! ## Runs that share keys -/

/-- `split` has two OUT ports; `describe` reads `train`, and `describe2`
the port with this id. -/
def split_and_describe (port_id : String) : Graph Empty where
  nodes := Dict.ofList [
    ("load", { id := "load", type := "data.load_sample", ports := [
      { id := "o", name := "frame", direction := .OUT }] }),
    ("split", { id := "split", type := "ml.train_test_split", ports := [
      { id := "i", name := "frame", direction := .IN },
      { id := "tr", name := "train", direction := .OUT },
      { id := "te", name := "test", direction := .OUT }] }),
    ("describe", { id := "describe", type := "stats.describe", ports := [
      { id := "i", name := "frame", direction := .IN }] }),
    ("describe2", { id := "describe2", type := "stats.describe", ports := [
      { id := "i", name := "frame", direction := .IN }] })]
  edges := Dict.ofList [
    ("a", { id := "a", source := ⟨"load", "o"⟩, target := ⟨"split", "i"⟩ }),
    ("b", { id := "b", source := ⟨"split", "tr"⟩, target := ⟨"describe", "i"⟩ }),
    ("c", { id := "c", source := ⟨"split", port_id⟩, target := ⟨"describe2", "i"⟩ })]

/-- What the nodes return: the summary of a frame is its size. -/
def split_outputs (type : String) (inputs : String → Option Nat) : Dict String Nat :=
  if type = "data.load_sample" then Dict.ofList [("frame", 100)]
  else if type = "ml.train_test_split" then Dict.ofList [("train", 75), ("test", 25)]
  else Dict.ofList [("summary", (inputs "frame").getD 0)]

/-- A server with an empty execution cache and no artifacts. Its three node types are
cacheable, as the registered ones are. -/
def split_server (sha256 : String → String) : Server Empty Nat Unit Unit where
  runtime := {
    registry := fun type =>
      if type ∈ ["data.load_sample", "ml.train_test_split", "stats.describe"] then some { type }
      else none
    none_value := 0
    list_value := List.sum }
  gate _ := true
  call node inputs _ := .ok (split_outputs node.type inputs.get?)
  is_exception _ := true
  gateway := ()
  warehouse := ()
  hashing := { dumps := fun _ => "\x7b\x7d", sha256, version := "0.3.7" }
  cache := ExecutionCache 1000 (fun _ => .ok 1) (fun _ _ => 1)
  artifacts := .null _ _ _

/-- One run on this server. -/
def split_run {sha256 : String → String} (port_id : String)
    {c : (split_server sha256).cache.State}
    {t : Trace ((split_server sha256).behaving (split_server sha256).call)}
    (h : ((split_server sha256).behaving (split_server sha256).call).stream
      (split_and_describe port_id) none c () = .ok t) : CachedRun (split_server sha256) where
  graph := split_and_describe port_id
  only := none
  call := (split_server sha256).call
  cache := c
  artifacts := ()
  trace := t
  streamed := h

/-- The outputs of an `ok` event. -/
def NodeEvent.outputs {V ε : Type} : NodeEvent V ε → Option (List (String × V))
  | .ok _ _ outputs _ => some outputs.entries
  | _ => none

/-- One `describe` reads `train`, the other `test`, and the second is
answered with the summary of the first. -/
theorem split_ports_share_key : ∃ r : CachedRun (split_server id),
    CacheHistory (split_server id) [r] r.trace.state.cache ∧ r.graph.Valid ∧
      Function.Injective (split_server id).hashing.sha256 ∧
      Behaviour.PureOn (split_server id).runtime.registry
        (fun type _ inputs _ => .ok (split_outputs type inputs)) r.call ∧
      ¬ CacheSound (split_server id) [r] := by
  refine ⟨split_run "te" (c := ({} : DiskStore _)) rfl,
    .ran (split_run "te" rfl) (.start fun _ => rfl),
    Graph.validate_structure_eq_ok.mp rfl, fun _ _ h => h, fun _ _ _ _ _ _ => rfl, fun h => ?_⟩
  obtain ⟨t, hrun, hevents, -⟩ := h.events _ List.mem_cons_self
  cases hrun
  have houtputs := congrArg (List.filterMap NodeEvent.outputs) hevents
  revert houtputs
  decide

/-- 64 digits, by the length of the text. -/
def length_digest (text : String) : String :=
  String.ofList (List.replicate 62 '0' ++
    [Nat.digitChar (text.length / 16 % 16), Nat.digitChar (text.length % 16)])

theorem length_digest_documented : (split_server length_digest).hashing.Documented where
  opens params := ⟨['\x7d'], (by decide : "\x7b\x7d".toList = _)⟩
  self_delimiting params params' rest rest' _ := rfl
  hexdigest text := by
    have hdigit : ∀ n < 16, hex_digit (Nat.digitChar n) = true := by decide
    have hlist : ((split_server length_digest).hashing.sha256 text).toList =
        List.replicate 62 '0' ++
          [Nat.digitChar (text.length / 16 % 16), Nat.digitChar (text.length % 16)] :=
      String.toList_ofList
    rw [hlist]
    refine ⟨by simp, fun c hc => ?_⟩
    simp only [List.mem_append, List.mem_replicate, List.mem_cons, List.not_mem_nil, or_false] at hc
    rcases hc with ⟨-, rfl⟩ | rfl | rfl
    · decide
    · exact hdigit _ (Nat.mod_lt _ (by decide))
    · exact hdigit _ (Nat.mod_lt _ (by decide))

/-- The order of the run. -/
def split_order : List String := ["load", "split", "describe", "describe2"]

/-- The texts that the run digests. -/
def split_texts : List String :=
  let load := "data.load_sample\x7b\x7d0.3.7"
  let split := "ml.train_test_split\x7b\x7dframe=" ++ length_digest load ++ "0.3.7"
  [load, split, "stats.describe\x7b\x7dframe=" ++ length_digest split ++ "0.3.7"]

section Reader

variable {c : (split_server length_digest).cache.State}
  {t : Trace ((split_server length_digest).behaving (split_server length_digest).call)}
  {h : ((split_server length_digest).behaving (split_server length_digest).call).stream
    (split_and_describe "tr") none c () = .ok t} {id : String} {node : Node Empty}

theorem split_entry {text : String} {ingredients : Ingredients}
    (entry : (split_run "tr" h).Entry id node text ingredients) : text ∈ split_texts := by
  obtain ⟨hfound, order, w, hprepare, hid, htext, rfl⟩ := entry
  obtain rfl : split_order = order :=
    Except.ok.inj (congrArg (Except.map Prod.fst) hprepare)
  have hcases : id = "load" ∨ id = "split" ∨ id = "describe" ∨ id = "describe2" := by
    simpa [split_order] using hid
  have hgraph : (split_run "tr" h).graph = split_and_describe "tr" := rfl
  rw [hgraph] at hfound htext
  rcases hcases with rfl | rfl | rfl | rfl <;> cases hfound <;> cases htext <;> decide +kernel

/-- A node of the graph reads `frame` or nothing, and `describe` and `describe2` read alike. -/
theorem split_caches (caches : (split_run "tr" h).Caches id node) :
    '\x7b' ∉ node.type.toList ∧ (∀ port ∈ node.in_ports, port.name = "frame") ∧
      node.param_values = Dict.empty ∧ ∀ {id' node'},
        (split_and_describe "tr").nodes.get? id' = some node' → node.type = node'.type →
          (split_and_describe "tr").reading id node = (split_and_describe "tr").reading id' node' := by
  have hfound : (split_and_describe "tr").nodes.get? id = some node := caches.found
  have hids : ∀ {id node}, (split_and_describe "tr").nodes.get? id = some node →
      id = "load" ∨ id = "split" ∨ id = "describe" ∨ id = "describe2" := by
    intro id node hfound
    have hmem : id ∈ ["load", "split", "describe", "describe2"] :=
      (Dict.mem_keys_iff _).mpr ⟨node, hfound⟩
    simpa using hmem
  have hreading : ∀ {id' node'}, (split_and_describe "tr").nodes.get? id' = some node' →
      node.type = node'.type →
        (split_and_describe "tr").reading id node =
          (split_and_describe "tr").reading id' node' := by
    intro id' node' hfound' htype
    rcases hids hfound with rfl | rfl | rfl | rfl <;>
      rcases hids hfound' with rfl | rfl | rfl | rfl <;> cases hfound <;> cases hfound' <;>
      first | rfl | exact absurd htype (by decide)
  refine ⟨?_, ?_, ?_, hreading⟩ <;>
    rcases hids hfound with rfl | rfl | rfl | rfl <;> cases hfound <;> first | rfl | decide

end Reader

/-- Two runs in a row, of the same graph. -/
theorem split_history : ∃ r r' : CachedRun (split_server length_digest),
    CacheHistory (split_server length_digest) [r, r'] r'.trace.state.cache ∧
      ∀ x ∈ [r, r'], ∃ c t h, x = @split_run length_digest "tr" c t h := by
  refine ⟨_, _, .ran (split_run "tr" rfl)
    (.ran (split_run "tr" (c := ({} : DiskStore _)) rfl) (.start fun _ => rfl)), ?_⟩
  intro r hr
  rcases List.mem_pair.mp hr with heq | heq
  · exact ⟨_, _, _, heq⟩
  · exact ⟨_, _, _, heq⟩

/-- Both read `train`: the second `describe` and all of the second run are
answered by the cache, and rightly so. -/
theorem train_readers_sound : ∃ r r' : CachedRun (split_server length_digest),
    CacheHistory (split_server length_digest) [r, r'] r'.trace.state.cache ∧
      CacheSound (split_server length_digest) [r, r'] := by
  obtain ⟨r, r', h, hruns⟩ := split_history
  refine ⟨r, r', h, ?_⟩
  apply cache_soundness h (f := fun type _ inputs _ => .ok (split_outputs type inputs))
  · intro r hr
    obtain ⟨c, t, hrun, rfl⟩ := hruns r hr
    exact Graph.validate_structure_eq_ok.mp rfl
  · exact length_digest_documented
  · rintro text ⟨r, hr, id, node, ingredients, entry⟩ text' ⟨r', hr', id', node', ingredients',
      entry'⟩ hdigest
    obtain ⟨c, t, hrun, rfl⟩ := hruns r hr
    obtain ⟨c', t', hrun', rfl⟩ := hruns r' hr'
    have hdistinct : ∀ a ∈ split_texts, ∀ b ∈ split_texts,
        length_digest a = length_digest b → a = b := by decide +kernel
    exact hdistinct text (split_entry entry) text' (split_entry entry') hdigest
  · intro r hr
    obtain ⟨c, t, hrun, rfl⟩ := hruns r hr
    exact fun _ _ _ _ _ _ => rfl
  · constructor
    · intro r hr id node caches
      obtain ⟨c, t, hrun, rfl⟩ := hruns r hr
      exact (split_caches caches).1
    · intro r hr id node caches port hport
      obtain ⟨c, t, hrun, rfl⟩ := hruns r hr
      rw [(split_caches caches).2.1 port hport]
      exact TaggedText.plain_of_not_mem (by decide)
    · intro r hr r' hr' id node id' node' caches caches' _ _
      obtain ⟨c, t, hrun, rfl⟩ := hruns r hr
      obtain ⟨c', t', hrun', rfl⟩ := hruns r' hr'
      rw [(split_caches caches).2.2.1, (split_caches caches').2.2.1]
    · intro r hr r' hr' id node id' node' caches caches' halike
      obtain ⟨c, t, hrun, rfl⟩ := hruns r hr
      obtain ⟨c', t', hrun', rfl⟩ := hruns r' hr'
      have htype : node.type = node'.type := by
        cases halike with
        | intro found found' type params ports sources =>
            obtain rfl := Option.some.inj (caches.found.symm.trans found.found)
            obtain rfl := Option.some.inj (caches'.found.symm.trans found'.found)
            exact type
      exact (split_caches caches).2.2.2 caches'.found htype

end EmergentFlow
