import Mathlib.Data.Set.Function
import EmergentFlow.Server.StreamAgree

/-!
# Server — CacheKeys

What the key of a node in the execution cache stands for. A key digests a
text made of the node's type, its params and the tagged hashes of its
upstream nodes. If over all runs that share the cache this text tells the
ingredients of the node (`KeysTell`), then a key denotes one result: the
one a node with this key returns on inputs denoted by its upstream hashes
(`Denotes.unique`).
-/

namespace EmergentFlow

variable {Sub V C ε : Type}

/-! ## Runs that share a cache -/

/-- One run: what it starts from and its trace. What the nodes do may differ
from run to run. -/
structure CachedRun (sv : Server Sub V C ε) where
  graph : Graph Sub
  only : Option (List String)
  call : Behaviour Sub V C ε
  cache : sv.cache.State
  artifacts : sv.artifacts.State
  trace : Trace (sv.behaving call)
  streamed : (sv.behaving call).stream graph only cache artifacts = .ok trace

/-- The runs since the cache was empty, with any evictions in between. -/
inductive CacheHistory (sv : Server Sub V C ε) : List (CachedRun sv) → sv.cache.State → Prop
  | start {c : sv.cache.State} (empty : ∀ key, sv.cache.view c key = none) :
      CacheHistory sv [] c
  | evicted {l : List (CachedRun sv)} {c c' : sv.cache.State} (before : CacheHistory sv l c)
      (fewer : ∀ key outputs, sv.cache.view c' key = some outputs →
        sv.cache.view c key = some outputs) : CacheHistory sv l c'
  | ran {l : List (CachedRun sv)} (r : CachedRun sv) (before : CacheHistory sv l r.cache) :
      CacheHistory sv (l ++ [r]) r.trace.state.cache

/-- The nodes of a cacheable type do the same in every run: a function of
the type, the params, the inputs by port and the client. -/
def Behaviour.PureOn (reg : NodeRegistry)
    (f : String → (String → Option ParamValue) → (String → Option V) → Option C →
      Except ε (Dict String V)) (call : Behaviour Sub V C ε) : Prop :=
  ∀ node definition inputs client, reg node.type = some definition →
    definition.cacheable = true →
    call node inputs client = f node.type node.param_values.get? inputs.get? client

/-! ## What a key is made of -/

/-- The text behind the key of a node. -/
def Server.key_text (sv : Server Sub V C ε) (node : Node Sub)
    (upstream_hashes : List (Option String)) : Option String :=
  (sv.runtime.registry node.type).bind fun definition =>
    if definition.cacheable && upstream_hashes.all (·.isSome) then
      some (sv.hashing.payload node (upstream_hashes.filterMap id))
    else none

/-- The hashes of the nodes of a run, if all of them succeed. -/
def Server.static_hashes (sv : Server Sub V C ε) (g : Graph Sub) :
    List String → Dict String (Option String) → Dict String (Option String)
  | [], hashes => hashes
  | id :: rest, hashes =>
      match g.nodes.get? id with
      | none => sv.static_hashes g rest hashes
      | some node =>
          let upstream := bound_hashes (g.port_sources id) hashes node.in_ports
          sv.static_hashes g rest (hashes.set id (sv.node_key node upstream))

/-- What decides the result of a cacheable node: its type, its params and,
for each IN port, the hash and the OUT port of every source. -/
structure Ingredients where
  type : String
  params : String → Option ParamValue
  ports : String → Option (Cardinality × List (Option String × Option String))

/-- The ingredients of a node. -/
def Graph.ingredients (g : Graph Sub) (hashes : Dict String (Option String)) (id : String)
    (node : Node Sub) : Ingredients where
  type := node.type
  params := node.param_values.get?
  ports := (Dict.ofList (node.in_ports.map fun port => (port.name, port.cardinality,
    (g.port_sources id port).map fun src =>
      ((hashes.get? src.node_id).join, (g.source_port_name src).toOption)))).get?

/-- A node of the run has a key with this text, and these ingredients. -/
structure CachedRun.Entry {sv : Server Sub V C ε} (r : CachedRun sv) (id : String)
    (node : Node Sub) (text : String) (ingredients : Ingredients) : Prop where
  found : r.graph.nodes.get? id = some node
  key : ∃ order w, sv.prepare r.graph r.only = .ok (order, w) ∧ id ∈ order ∧
    sv.key_text node (bound_hashes (r.graph.port_sources id)
      (sv.static_hashes r.graph order Dict.empty) node.in_ports) = some text ∧
    r.graph.ingredients (sv.static_hashes r.graph order Dict.empty) id node = ingredients

/-- No two texts that the runs digest have one digest. -/
def Collisionless (sv : Server Sub V C ε) (l : List (CachedRun sv)) : Prop :=
  Set.InjOn sv.hashing.sha256
    {text | ∃ r ∈ l, ∃ id node ingredients, r.Entry id node text ingredients}

/-- The text of a key tells the ingredients, over all nodes of all runs. -/
def KeysTell (sv : Server Sub V C ε) (l : List (CachedRun sv)) : Prop :=
  ∀ r ∈ l, ∀ r' ∈ l, ∀ id node text ingredients id' node' ingredients',
    r.Entry id node text ingredients → r'.Entry id' node' text ingredients' →
      ingredients = ingredients'

/-! ## What a key means -/

variable {sv : Server Sub V C ε}

/-- The value of a source, when its hash means these results. -/
def source_meaning (rt : Runtime V) (meaning : String → Dict String V)
    (src : Option String × Option String) : V :=
  (src.1.bind fun hash => src.2.bind fun port_name => (meaning hash).get? port_name).getD
    rt.none_value

/-- The inputs by port, when the hashes mean these results. -/
def Ingredients.inputs (rt : Runtime V) (meaning : String → Dict String V) (i : Ingredients) :
    String → Option V := fun name =>
  (i.ports name).map fun p => port_value rt p.1 (p.2.map (source_meaning rt meaning))

/-- Running some node with this key, on inputs that its hashes denote,
returns these results. -/
inductive Denotes (sv : Server Sub V C ε) (l : List (CachedRun sv)) :
    String → Dict String V → Prop
  | intro {r : CachedRun sv} (hr : r ∈ l) {id : String} {node : Node Sub} {text : String}
      {ingredients : Ingredients} (entry : r.Entry id node text ingredients)
      (meaning : String → Dict String V)
      (upstream : ∀ name cardinality sources,
        ingredients.ports name = some (cardinality, sources) →
          ∀ hash port, (some hash, port) ∈ sources → Denotes sv l hash (meaning hash))
      {inputs outputs : Dict String V}
      (bound : inputs.get? = ingredients.inputs sv.runtime meaning)
      (run : (sv.behaving r.call).run_node node inputs = .ok outputs) :
      Denotes sv l (sv.hashing.sha256 text) outputs

theorem Ingredients.inputs_congr {rt : Runtime V} {meaning meaning' : String → Dict String V}
    {i : Ingredients} (h : ∀ name cardinality sources, i.ports name = some (cardinality, sources) →
      ∀ hash port, (some hash, port) ∈ sources → meaning hash = meaning' hash) :
    i.inputs rt meaning = i.inputs rt meaning' := by
  funext name
  unfold Ingredients.inputs
  cases hport : i.ports name with
  | none => rfl
  | some p =>
      obtain ⟨cardinality, sources⟩ := p
      simp only [Option.map_some]
      congr 2
      apply List.map_congr_left
      rintro ⟨hash, port⟩ hmem
      cases hash with
      | none => rfl
      | some hash =>
          simp only [source_meaning, Option.bind_some,
            h name cardinality sources hport hash port hmem]

/-- A cacheable node does in one run what it does in another. -/
theorem Behaviour.PureOn.run_node {f : String → (String → Option ParamValue) →
      (String → Option V) → Option C → Except ε (Dict String V)}
    {call call' : Behaviour Sub V C ε} (h : Behaviour.PureOn sv.runtime.registry f call)
    (h' : Behaviour.PureOn sv.runtime.registry f call') {node node' : Node Sub}
    {definition : NodeDefinition} (hdef : sv.runtime.registry node.type = some definition)
    (hcacheable : definition.cacheable = true) (htype : node.type = node'.type)
    (hparams : node.param_values.get? = node'.param_values.get?) {inputs inputs' : Dict String V}
    (hinputs : inputs.get? = inputs'.get?) :
    (sv.behaving call).run_node node inputs = (sv.behaving call').run_node node' inputs' := by
  have hdef' : sv.runtime.registry node'.type = some definition := htype ▸ hdef
  have hcall : ∀ client, call node inputs client = call' node' inputs' client := by
    intro client
    rw [h node definition inputs client hdef hcacheable,
      h' node' definition inputs' client hdef' hcacheable, htype, hparams, hinputs]
  have hdispatch : ∀ client, definition_execute call node inputs client =
      definition_execute call' node' inputs' client := by
    intro client
    simp only [definition_execute, htype, hcall]
  have hrun : ∀ (call : Behaviour Sub V C ε) (node : Node Sub) (inputs : Dict String V),
      sv.runtime.registry node.type = some definition → (sv.behaving call).run_node node inputs =
        (sv.behaving call).execute_node definition node inputs := by
    intro call node inputs hdef
    show Checks.require (sv.runtime.registry node.type) _ >>= _ = _
    rw [hdef]
    rfl
  rw [hrun call node inputs hdef, hrun call' node' inputs' hdef']
  simp only [Server.execute_node, Server.behaving, hdispatch, htype]

theorem Server.node_key_eq (sv : Server Sub V C ε) (node : Node Sub)
    (hashes : List (Option String)) :
    sv.node_key node hashes = (sv.key_text node hashes).map sv.hashing.sha256 := by
  simp only [Server.node_key, Server.key_text, Hashing.cache_hash, Hashing.node_hash]
  cases sv.runtime.registry node.type with
  | none => rfl
  | some definition =>
      simp only [Option.bind_some]
      split <;> rfl

/-- A node with a key is cacheable, and all its upstream hashes are defined. -/
theorem Server.key_text_eq_some {node : Node Sub} {hashes : List (Option String)} {text : String}
    (h : sv.key_text node hashes = some text) :
    (∃ definition, sv.runtime.registry node.type = some definition ∧
      definition.cacheable = true) ∧ ∀ hash ∈ hashes, hash.isSome = true := by
  obtain ⟨definition, hdef, htext⟩ := Option.bind_eq_some_iff.mp h
  split at htext
  · rename_i hboth
    rw [Bool.and_eq_true, List.all_eq_true] at hboth
    exact ⟨⟨definition, hdef, hboth.1⟩, hboth.2⟩
  · cases htext

/-- Entries with the same ingredients are equally cacheable. -/
theorem CachedRun.Entry.definition {r : CachedRun sv} {id : String} {node : Node Sub}
    {text : String} {ingredients : Ingredients} (h : r.Entry id node text ingredients) :
    ingredients.type = node.type ∧ ingredients.params = node.param_values.get? ∧
      ∃ definition, sv.runtime.registry node.type = some definition ∧
        definition.cacheable = true := by
  obtain ⟨order, w, -, -, htext, rfl⟩ := h.key
  exact ⟨rfl, rfl, (Server.key_text_eq_some htext).1⟩

section Meaning

variable {l : List (CachedRun sv)} {f : String → (String → Option ParamValue) →
    (String → Option V) → Option C → Except ε (Dict String V)}
  (hinj : Collisionless sv l) (hkeys : KeysTell sv l)
  (hpure : ∀ r ∈ l, Behaviour.PureOn sv.runtime.registry f r.call)
include hinj hkeys hpure

omit hpure in
/-- Entries with the same key have the same ingredients. -/
theorem CachedRun.Entry.same_ingredients {r r' : CachedRun sv} (hr : r ∈ l) (hr' : r' ∈ l)
    {id id' : String} {node node' : Node Sub} {text text' : String}
    {ingredients ingredients' : Ingredients} (h : r.Entry id node text ingredients)
    (h' : r'.Entry id' node' text' ingredients')
    (hhash : sv.hashing.sha256 text = sv.hashing.sha256 text') : ingredients = ingredients' := by
  obtain rfl : text = text' :=
    hinj ⟨r, hr, id, node, ingredients, h⟩ ⟨r', hr', id', node', ingredients', h'⟩ hhash
  exact hkeys r hr r' hr' id node text ingredients id' node' ingredients' h h'

omit hinj hkeys in
/-- Nodes with the same ingredients do the same on the same inputs. -/
theorem CachedRun.Entry.same_run {r r' : CachedRun sv} (hr : r ∈ l) (hr' : r' ∈ l)
    {id id' : String} {node node' : Node Sub} {text text' : String} {ingredients : Ingredients}
    (h : r.Entry id node text ingredients) (h' : r'.Entry id' node' text' ingredients)
    {inputs inputs' : Dict String V} (hinputs : inputs.get? = inputs'.get?) :
    (sv.behaving r.call).run_node node inputs = (sv.behaving r'.call).run_node node' inputs' := by
  obtain ⟨htype, hparams, definition, hdef, hcacheable⟩ := h.definition
  obtain ⟨htype', hparams', -⟩ := h'.definition
  exact (hpure r hr).run_node (hpure r' hr') hdef hcacheable (htype.symm.trans htype')
    (hparams.symm.trans hparams') hinputs

/-- A key denotes one result. -/
theorem Denotes.unique {key : String} {outputs outputs' : Dict String V}
    (h : Denotes sv l key outputs) (h' : Denotes sv l key outputs') : outputs = outputs' := by
  induction h generalizing outputs' with
  | @intro r hr id node text ingredients entry meaning upstream inputs outputs bound run ih =>
      generalize hkey : sv.hashing.sha256 text = key at h'
      cases h' with
      | @intro r' hr' id' node' text' ingredients' entry' meaning' upstream' inputs' _ bound'
            run' =>
          obtain rfl := entry.same_ingredients hinj hkeys hr hr' entry' hkey
          have hinputs : inputs.get? = inputs'.get? := by
            rw [bound, bound']
            apply Ingredients.inputs_congr
            intro name cardinality sources hport hash port hmem
            exact ih name cardinality sources hport hash port hmem
              (upstream' name cardinality sources hport hash port hmem)
          have hrun := entry.same_run hpure hr hr' entry' hinputs
          rw [run, run'] at hrun
          exact Except.ok.inj hrun

end Meaning

open Classical in
/-- The result a key denotes, if it denotes one. -/
noncomputable def meaning_of (sv : Server Sub V C ε) (l : List (CachedRun sv)) (key : String) :
    Dict String V :=
  if h : ∃ outputs, Denotes sv l key outputs then h.choose else Dict.empty

theorem denotes_meaning_of {l : List (CachedRun sv)} {key : String} {outputs : Dict String V}
    (h : Denotes sv l key outputs) : Denotes sv l key (meaning_of sv l key) := by
  have hex : ∃ outputs, Denotes sv l key outputs := ⟨outputs, h⟩
  rw [meaning_of, dif_pos hex]
  exact hex.choose_spec

/-! ## The hashes of a run -/

/-- The table of hashes is complete on `done`, and silent elsewhere. -/
structure Hashes (sv : Server Sub V C ε) (g : Graph Sub) (done : List String)
    (hashes : Dict String (Option String)) : Prop where
  listed : ∀ id ∈ done, ∀ node, g.nodes.get? id = some node → hashes.get? id =
    some (sv.node_key node (bound_hashes (g.port_sources id) hashes node.in_ports))
  other : ∀ id ∉ done, hashes.get? id = none

theorem Server.static_hashes_spec {g : Graph Sub} {w : WiringMap} {order : List String}
    (hs : Scope g w order) (rest : List String) {done : List String}
    {hashes : Dict String (Option String)} (hsplit : order = done ++ rest)
    (h : Hashes sv g done hashes) : Hashes sv g order (sv.static_hashes g rest hashes) := by
  induction rest generalizing done hashes with
  | nil =>
      rw [List.append_nil] at hsplit
      subst hsplit
      exact h
  | cons id rest ih =>
      obtain ⟨node, hnode⟩ := hs.node id (hsplit ▸ by simp)
      simp only [Server.static_hashes, hnode]
      have hid : id ∉ done := hs.fresh hsplit
      refine @ih (done ++ [id]) _ (by simp [hsplit]) ?_
      -- no source of a node listed so far is `id`
      have hsame : ∀ other ∈ done ++ [id], ∀ node',
          bound_hashes (g.port_sources other) hashes node'.in_ports =
            bound_hashes (g.port_sources other) (hashes.set id
              (sv.node_key node (bound_hashes (g.port_sources id) hashes node.in_ports)))
              (node' : Node Sub).in_ports := by
        intro other hother node'
        apply bound_hashes_congr
        intro port _ src hsrc
        have hfeeds := Graph.feeds_of_mem_sources hsrc
        have hne : id ≠ src.node_id := by
          rintro heq
          have hin : src.node_id ∈ order := heq ▸ hsplit ▸ by simp
          have hdone : src.node_id ∈ done := by
            rcases List.mem_append.mp hother with hmem | hmem
            · exact hs.producer_of_done hsplit hmem hfeeds hin
            · rw [List.mem_singleton.mp hmem] at hfeeds
              exact hs.producer_done hsplit hfeeds hin
          exact hid (heq ▸ hdone)
        rw [Dict.get?_set_ne _ _ hne]
      constructor
      · intro other hother node' hnode'
        rw [← hsame other hother node']
        rcases List.mem_append.mp hother with hmem | hmem
        · have hne : id ≠ other := fun heq => hid (heq ▸ hmem)
          rw [Dict.get?_set_ne _ _ hne, h.listed other hmem node' hnode']
        · obtain rfl := List.mem_singleton.mp hmem
          obtain rfl := Option.some.inj (hnode.symm.trans hnode')
          rw [Dict.get?_set_self]
      · intro other hother
        simp only [List.mem_append, List.mem_singleton, not_or] at hother
        rw [Dict.get?_set_ne _ _ (Ne.symm hother.2), h.other other hother.1]

end EmergentFlow
