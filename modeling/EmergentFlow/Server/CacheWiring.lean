import EmergentFlow.Lib.TaggedText
import EmergentFlow.Server.CacheKeys

/-!
# Server — CacheWiring

When the text of a key tells what the node is made of. The text names the type, the
params, and for each wire the IN port it feeds and the hash of the node it comes from;
it names neither the OUT port a wire comes from nor an IN port that nothing feeds. So
nodes that share a key are wired alike (`Alike`), and the keys tell the ingredients if
nodes that are wired alike also read the same OUT ports (`Distinguished`, `keysTell`).
-/

namespace EmergentFlow

variable {Sub V C ε : Type} {sv : Server Sub V C ε} {l : List (CachedRun sv)}

/-! ## Nodes that are wired alike -/

/-- The wires of a node: the IN port each feeds, and its source. -/
def Graph.wires (g : Graph Sub) (id : String) (node : Node Sub) : List (String × PortRef) :=
  node.in_ports.flatMap fun port => (g.port_sources id port).map fun src => (port.name, src)

/-- What a node reads: for each IN port, the names of the OUT ports that feed it. -/
def Graph.reading (g : Graph Sub) (id : String) (node : Node Sub) :
    List (String × Cardinality × List (Option String)) :=
  node.in_ports.map fun port => (port.name, port.cardinality,
    (g.port_sources id port).map fun src => (g.source_port_name src).toOption)

/-- A node of a cacheable type in the scope of the run. -/
structure CachedRun.Caches (r : CachedRun sv) (id : String) (node : Node Sub) : Prop where
  found : r.graph.nodes.get? id = some node
  scope : ∃ order w, sv.prepare r.graph r.only = .ok (order, w) ∧ id ∈ order
  cacheable : ∃ definition, sv.runtime.registry node.type = some definition ∧
    definition.cacheable = true

/-- Two nodes have the same type and params, and wires into the same IN ports, from nodes of
which the same holds. -/
inductive Alike (r r' : CachedRun sv) : String → String → Prop
  | intro {id id' : String} {node node' : Node Sub} (caches : r.Caches id node)
      (caches' : r'.Caches id' node') (type : node.type = node'.type)
      (params : node.param_values.get? = node'.param_values.get?)
      (ports : (r.graph.wires id node).map Prod.fst = (r'.graph.wires id' node').map Prod.fst)
      (sources : ∀ p ∈ (r.graph.wires id node).zip (r'.graph.wires id' node'),
        Alike r r' p.1.2.node_id p.2.2.node_id) : Alike r r' id id'

/-- A digit of `hexdigest`. -/
def hex_digit (c : Char) : Bool := c.isDigit || ('a' ≤ c && c ≤ 'f')

/-- The condition on the graphs of the runs. -/
structure Distinguished (sv : Server Sub V C ε) (l : List (CachedRun sv)) : Prop where
  types : ∀ r ∈ l, ∀ id node, r.Caches id node → '\x7b' ∉ node.type.toList
  /-- No IN port is named like one with a hash behind it. -/
  ports : ∀ r ∈ l, ∀ id node, r.Caches id node → ∀ port ∈ node.in_ports,
    TaggedText.Plain '=' hex_digit 64 port.name.toList
  params : ∀ r ∈ l, ∀ r' ∈ l, ∀ id node id' node', r.Caches id node → r'.Caches id' node' →
    node.type = node'.type →
      sv.hashing.dumps node.param_values = sv.hashing.dumps node'.param_values →
        node.param_values.get? = node'.param_values.get?
  /-- Nodes that are wired alike read the same OUT ports, into the same IN ports. -/
  wiring : ∀ r ∈ l, ∀ r' ∈ l, ∀ id node id' node', r.Caches id node → r'.Caches id' node' →
    Alike r r' id id' → r.graph.reading id node = r'.graph.reading id' node'

/-! ## The text of a key -/

/-- What `json.dumps` of a dict and `hexdigest` return. -/
structure Hashing.Documented (hs : Hashing) : Prop where
  opens : ∀ params, ∃ rest, (hs.dumps params).toList = '\x7b' :: rest
  /-- A JSON object ends where it is closed. -/
  self_delimiting : ∀ params params' (rest rest' : String),
    hs.dumps params ++ rest = hs.dumps params' ++ rest' → hs.dumps params = hs.dumps params'
  hexdigest : ∀ text, TaggedText.Code hex_digit 64 (hs.sha256 text).toList

/-- The hash of the node that a wire comes from. -/
def source_hash (hashes : Dict String (Option String)) (wire : String × PortRef) : Option String :=
  (hashes.get? wire.2.node_id).join

/-- A wire as it is tagged. -/
def wire_tag (hashes : Dict String (Option String)) (wire : String × PortRef) :
    List Char × List Char :=
  (wire.1.toList, ((source_hash hashes wire).getD "").toList)

theorem bound_hashes_eq_map_wires (g : Graph Sub) (hashes : Dict String (Option String))
    (id : String) (node : Node Sub) : bound_hashes (g.port_sources id) hashes node.in_ports =
      (g.wires id node).map fun wire => tagged_hash wire.1 (source_hash hashes wire) := by
  simp only [bound_hashes, Graph.wires, List.map_flatMap, List.map_map, source_hash]
  rfl

/-- The tagged hashes, one behind the other. -/
theorem toList_join_tags {wires : List (String × PortRef)} {hashes : Dict String (Option String)}
    (h : ∀ wire ∈ wires, (source_hash hashes wire).isSome = true) :
    (String.join ((wires.map fun wire =>
      tagged_hash wire.1 (source_hash hashes wire)).filterMap id)).toList =
        TaggedText.text '=' (wires.map (wire_tag hashes)) := by
  have htagged : (wires.map fun wire => tagged_hash wire.1 (source_hash hashes wire)).filterMap id =
      wires.map fun wire => wire.1 ++ "=" ++ (source_hash hashes wire).getD "" := by
    rw [List.filterMap_map, ← List.filterMap_eq_map]
    apply List.filterMap_congr
    intro wire hwire
    obtain ⟨hash, hhash⟩ := Option.isSome_iff_exists.mp (h wire hwire)
    simp [tagged_hash, hhash]
  have hequals : "=".toList = ['='] := rfl
  rw [htagged, String.toList_join, TaggedText.text, List.flatMap_map, List.flatMap_map]
  simp only [wire_tag, String.toList_append, hequals, List.append_assoc, List.singleton_append]

/-- What a list of characters is up to the first brace. -/
theorem append_brace_inj {l l' rest rest' : List Char} (hl : '\x7b' ∉ l) (hl' : '\x7b' ∉ l')
    (h : l ++ '\x7b' :: rest = l' ++ '\x7b' :: rest') : l = l' := by
  induction l generalizing l' with
  | nil =>
      cases l' with
      | nil => rfl
      | cons c l' => exact absurd ((List.cons.inj h).1 ▸ List.mem_cons_self) hl'
  | cons c l ih =>
      cases l' with
      | nil => exact absurd ((List.cons.inj h).1 ▸ List.mem_cons_self) hl
      | cons c' l' =>
          obtain ⟨hc, htail⟩ := List.cons.inj h
          rw [hc, ih (List.not_mem_of_not_mem_cons hl) (List.not_mem_of_not_mem_cons hl') htail]

/-- The text of a key tells the type, the text of the params and the tags. -/
theorem Hashing.Documented.payload_inj {hs : Hashing} (hdoc : hs.Documented)
    {node node' : Node Sub} {hashes hashes' : List String} (htype : '\x7b' ∉ node.type.toList)
    (htype' : '\x7b' ∉ node'.type.toList) (h : hs.payload node hashes = hs.payload node' hashes') :
    node.type = node'.type ∧ hs.dumps node.param_values = hs.dumps node'.param_values ∧
      String.join hashes = String.join hashes' := by
  have hfront : node.type ++ (hs.dumps node.param_values ++ String.join hashes) =
      node'.type ++ (hs.dumps node'.param_values ++ String.join hashes') := by
    have hversion := (String.append_left_inj hs.version).mp h
    simpa only [String.append_assoc] using hversion
  have hsame : node.type = node'.type := by
    obtain ⟨rest, hrest⟩ := hdoc.opens node.param_values
    obtain ⟨rest', hrest'⟩ := hdoc.opens node'.param_values
    have hlists := congrArg String.toList hfront
    simp only [String.toList_append, hrest, hrest', List.cons_append] at hlists
    exact String.toList_injective (append_brace_inj htype htype' hlists)
  rw [hsame] at hfront
  have hbehind := (String.append_right_inj _).mp hfront
  have hparams := hdoc.self_delimiting _ _ _ _ hbehind
  refine ⟨hsame, hparams, ?_⟩
  rw [hparams] at hbehind
  exact (String.append_right_inj _).mp hbehind

/-! ## Nodes with one key -/

section Entries

variable {r r' : CachedRun sv} {order order' : List String} {w w' : WiringMap} {id id' : String}
  {node node' : Node Sub} {text text' : String} {ingredients ingredients' : Ingredients}

/-- The hashes of a run without failures. -/
def CachedRun.hashes (r : CachedRun sv) (order : List String) : Dict String (Option String) :=
  sv.static_hashes r.graph order Dict.empty

theorem CachedRun.hashes_spec (hs : Scope r.graph w order) :
    Hashes sv r.graph order (r.hashes order) :=
  Server.static_hashes_spec hs order (List.nil_append order).symm
    ⟨by simp, fun id _ => Dict.get?_empty id⟩

/-- A hash is the digest of the text of an entry. -/
theorem CachedRun.entry_of_hash (hs : Scope r.graph w order)
    (hprepare : sv.prepare r.graph r.only = .ok (order, w)) {key : String}
    (hkey : (r.hashes order).get? id = some (some key)) : id ∈ order ∧ ∃ node text,
      r.Entry id node text (r.graph.ingredients (r.hashes order) id node) ∧
        sv.hashing.sha256 text = key := by
  have hspec := CachedRun.hashes_spec hs
  have hid : id ∈ order := by
    by_contra hnot
    rw [hspec.other id hnot] at hkey
    cases hkey
  obtain ⟨node, hnode⟩ := hs.node id hid
  rw [hspec.listed id hid node hnode, Option.some.injEq, Server.node_key_eq] at hkey
  obtain ⟨text, htext, hdigest⟩ := Option.map_eq_some_iff.mp hkey
  exact ⟨hid, node, text, ⟨hnode, order, w, hprepare, hid, htext, rfl⟩, hdigest⟩

theorem CachedRun.Entry.caches (h : r.Entry id node text ingredients) : r.Caches id node := by
  obtain ⟨order, w, hprepare, hid, htext, -⟩ := h.key
  exact ⟨h.found, ⟨order, w, hprepare, hid⟩, (Server.key_text_eq_some htext).1⟩

/-- The text and the ingredients of an entry, by the hashes of its sources. -/
theorem CachedRun.Entry.spelled (h : r.Entry id node text ingredients)
    (hprepare : sv.prepare r.graph r.only = .ok (order, w)) :
    (∀ wire ∈ r.graph.wires id node, (source_hash (r.hashes order) wire).isSome = true) ∧
      text = sv.hashing.payload node (((r.graph.wires id node).map fun wire =>
        tagged_hash wire.1 (source_hash (r.hashes order) wire)).filterMap fun hash => hash) ∧
      ingredients = r.graph.ingredients (r.hashes order) id node := by
  obtain ⟨order', w', hprepare', -, htext, hingredients⟩ := h.key
  obtain ⟨rfl, rfl⟩ := Prod.mk.inj (Except.ok.inj (hprepare'.symm.trans hprepare))
  rw [bound_hashes_eq_map_wires] at htext
  refine ⟨fun wire hwire => ?_, ?_, hingredients.symm⟩
  · have hdefined := (Server.key_text_eq_some htext).2 _ (List.mem_map.mpr ⟨wire, hwire, rfl⟩)
    rwa [tagged_hash, Option.isSome_map] at hdefined
  · obtain ⟨definition, hdef, htext⟩ := Option.bind_eq_some_iff.mp htext
    split at htext
    · exact (Option.some.inj htext).symm
    · cases htext

variable (hdoc : sv.hashing.Documented) (hdist : Distinguished sv l) (hr : r ∈ l) (hr' : r' ∈ l)
  (hs : Scope r.graph w order) (hs' : Scope r'.graph w' order')
  (hprepare : sv.prepare r.graph r.only = .ok (order, w))
  (hprepare' : sv.prepare r'.graph r'.only = .ok (order', w'))
include hdoc hdist

/-- The tags of an entry can be read. -/
theorem CachedRun.Entry.legible (hr : r ∈ l) (hs : Scope r.graph w order)
    (hprepare : sv.prepare r.graph r.only = .ok (order, w))
    (h : r.Entry id node text ingredients) : TaggedText.Legible '=' hex_digit 64
      ((r.graph.wires id node).map (wire_tag (r.hashes order))) := by
  intro e he
  obtain ⟨wire, hwire, rfl⟩ := List.mem_map.mp he
  constructor
  · obtain ⟨port, hport, hmem⟩ := List.mem_flatMap.mp hwire
    obtain ⟨src, -, rfl⟩ := List.mem_map.mp hmem
    exact hdist.ports r hr id node h.caches port hport
  · obtain ⟨key, hkey⟩ := Option.isSome_iff_exists.mp ((h.spelled hprepare).1 wire hwire)
    obtain ⟨-, node', text', -, rfl⟩ :=
      CachedRun.entry_of_hash hs hprepare (Option.join_eq_some_iff.mp hkey)
    rw [wire_tag, hkey]
    exact hdoc.hexdigest text'

include hr hr' hs hs' hprepare hprepare'

/-- Entries with one text have the same type and params, and wires into the same IN ports
from nodes with the same hashes. -/
theorem CachedRun.Entry.of_text (h : r.Entry id node text ingredients)
    (h' : r'.Entry id' node' text ingredients') : node.type = node'.type ∧
      node.param_values.get? = node'.param_values.get? ∧
      (r.graph.wires id node).map Prod.fst = (r'.graph.wires id' node').map Prod.fst ∧
      (r.graph.wires id node).map (source_hash (r.hashes order)) =
        (r'.graph.wires id' node').map (source_hash (r'.hashes order')) := by
  obtain ⟨hdefined, htext, -⟩ := h.spelled hprepare
  obtain ⟨hdefined', htext', -⟩ := h'.spelled hprepare'
  obtain ⟨htype, hdumps, hjoin⟩ := hdoc.payload_inj (hdist.types r hr id node h.caches)
    (hdist.types r' hr' id' node' h'.caches) (htext.symm.trans htext')
  have htags := (toList_join_tags hdefined).symm.trans
    ((congrArg String.toList hjoin).trans (toList_join_tags hdefined'))
  have hsame := TaggedText.text_inj (by decide) (h.legible hdoc hdist hr hs hprepare)
    (h'.legible hdoc hdist hr' hs' hprepare') htags
  refine ⟨htype, hdist.params r hr r' hr' id node id' node' h.caches h'.caches htype hdumps,
    ?_, ?_⟩
  · have hnames := congrArg (List.map fun e => String.ofList e.1) hsame
    simpa only [List.map_map, Function.comp_def, wire_tag, String.ofList_toList] using hnames
  · have hcodes := congrArg (List.map fun e => some (String.ofList e.2)) hsame
    simp only [List.map_map, Function.comp_def, wire_tag, String.ofList_toList] at hcodes
    have hget : ∀ (wires : List (String × PortRef)) (hashes : Dict String (Option String)),
        (∀ wire ∈ wires, (source_hash hashes wire).isSome = true) →
          wires.map (fun wire => some ((source_hash hashes wire).getD "")) =
            wires.map (source_hash hashes) := by
      intro wires hashes hall
      apply List.map_congr_left
      intro wire hwire
      obtain ⟨key, hkey⟩ := Option.isSome_iff_exists.mp (hall wire hwire)
      simp [hkey]
    rwa [hget _ _ hdefined, hget _ _ hdefined'] at hcodes

variable (hcoll : Collisionless sv l)
include hcoll

/-- Nodes with one hash are wired alike. -/
theorem alike_of_hash (pre post : List String) (hsplit : order = pre ++ id :: post) {key : String}
    (hkey : (r.hashes order).get? id = some (some key))
    (hkey' : (r'.hashes order').get? id' = some (some key)) : Alike r r' id id' := by
  induction hlength : pre.length using Nat.strong_induction_on generalizing pre id post id' key with
  | _ n ih =>
      subst hlength
      obtain ⟨-, node, text, entry, hdigest⟩ := CachedRun.entry_of_hash hs hprepare hkey
      obtain ⟨-, node', text', entry', hdigest'⟩ := CachedRun.entry_of_hash hs' hprepare' hkey'
      obtain rfl : text = text' := hcoll ⟨r, hr, id, node, _, entry⟩ ⟨r', hr', id', node', _, entry'⟩
        (hdigest.trans hdigest'.symm)
      obtain ⟨htype, hparams, hports, hsources⟩ :=
        entry.of_text hdoc hdist hr hr' hs hs' hprepare hprepare' entry'
      refine .intro entry.caches entry'.caches htype hparams hports fun p hp => ?_
      -- a source comes before the node, and has the hash of its counterpart
      have hwire := (List.of_mem_zip hp).1
      have hpairs : List.Forall₂ (fun wire wire' =>
          source_hash (r.hashes order) wire = source_hash (r'.hashes order') wire')
          (r.graph.wires id node) (r'.graph.wires id' node') := by
        have heq := List.forall₂_eq_eq_eq (α := Option String) ▸ hsources
        rwa [List.forall₂_map_left_iff, List.forall₂_map_right_iff] at heq
      have hsame : source_hash (r.hashes order) p.1 = source_hash (r'.hashes order') p.2 :=
        List.forall₂_zip hpairs hp
      obtain ⟨hash, hhash⟩ :=
        Option.isSome_iff_exists.mp ((entry.spelled hprepare).1 _ hwire)
      have hsource := Option.join_eq_some_iff.mp hhash
      have hsource' := Option.join_eq_some_iff.mp (hsame.symm.trans hhash)
      have hfeeds : r.graph.Feeds p.1.2.node_id id := by
        obtain ⟨port, -, hmem⟩ := List.mem_flatMap.mp hwire
        obtain ⟨src, hsrc, heq⟩ := List.mem_map.mp hmem
        rw [← heq]
        exact Graph.feeds_of_mem_sources hsrc
      have hin := (CachedRun.entry_of_hash hs hprepare hsource).1
      obtain ⟨before, after, rfl⟩ :=
        List.append_of_mem (hs.producers pre id post hsplit _ hfeeds hin)
      exact ih before.length (by simp) before (after ++ id :: post) (by simp [hsplit]) hsource
        hsource' rfl

end Entries

/-- Ports read alike, from sources with the same hashes, have the same ingredients. -/
theorem map_ports_eq {α β : Type} {ports ports' : List Port} {sources sources' : Port → List PortRef}
    {hash hash' : PortRef → α} {out out' : PortRef → β}
    (hreading : ports.map (fun port => (port.name, port.cardinality, (sources port).map out)) =
      ports'.map fun port => (port.name, port.cardinality, (sources' port).map out'))
    (hhash : ports.flatMap (fun port => (sources port).map hash) =
      ports'.flatMap fun port => (sources' port).map hash') :
    ports.map (fun port =>
        (port.name, port.cardinality, (sources port).map fun src => (hash src, out src))) =
      ports'.map fun port =>
        (port.name, port.cardinality, (sources' port).map fun src => (hash' src, out' src)) := by
  induction ports generalizing ports' with
  | nil =>
      cases ports' with
      | nil => rfl
      | cons port' ports' => cases hreading
  | cons port ports ih =>
      cases ports' with
      | nil => cases hreading
      | cons port' ports' =>
          obtain ⟨hhead, htail⟩ := List.cons.inj hreading
          simp only [Prod.mk.injEq] at hhead
          obtain ⟨hname, hcard, hout⟩ := hhead
          have hlength : ((sources port).map hash).length = ((sources' port').map hash').length := by
            simpa using congrArg List.length hout
          obtain ⟨hfirst, hrest⟩ := List.append_inj hhash hlength
          simp only [List.map_cons, ← List.zip_map', hname, hcard, hout, hfirst]
          congr 1
          simpa only [← List.zip_map'] using ih htail hrest

/-- Where nodes that are wired alike read the same ports, a key tells the ingredients. -/
theorem keysTell (hvalid : ∀ r ∈ l, r.graph.Valid) (hdoc : sv.hashing.Documented)
    (hcoll : Collisionless sv l) (hdist : Distinguished sv l) : KeysTell sv l := by
  intro r hr r' hr' id node text ingredients id' node' ingredients' entry entry'
  obtain ⟨order, w, hprepare, hid, -⟩ := entry.key
  obtain ⟨order', w', hprepare', hid', -⟩ := entry'.key
  have hs := (Server.prepare_scope (hvalid r hr) hprepare).1
  have hs' := (Server.prepare_scope (hvalid r' hr') hprepare').1
  obtain ⟨htype, hparams, -, hsources⟩ :=
    entry.of_text hdoc hdist hr hr' hs hs' hprepare hprepare' entry'
  have hkeys : ∀ {r : CachedRun sv} {order : List String} {w : WiringMap} {id : String}
      {node : Node Sub} {ingredients : Ingredients}, Scope r.graph w order →
      sv.prepare r.graph r.only = .ok (order, w) → r.Entry id node text ingredients →
        (r.hashes order).get? id = some (some (sv.hashing.sha256 text)) := by
    intro r order w id node ingredients hs hprepare entry
    obtain ⟨order', w', hprepare', hid, htext, -⟩ := entry.key
    obtain ⟨rfl, rfl⟩ := Prod.mk.inj (Except.ok.inj (hprepare'.symm.trans hprepare))
    rw [(CachedRun.hashes_spec hs).listed id hid node entry.found, Server.node_key_eq]
    exact congrArg _ (congrArg _ htext)
  obtain ⟨pre, post, hsplit⟩ := List.append_of_mem hid
  have halike := alike_of_hash hdoc hdist hr hr' hs hs' hprepare hprepare' hcoll pre post hsplit
    (hkeys hs hprepare entry) (hkeys hs' hprepare' entry')
  have hreading := hdist.wiring r hr r' hr' id node id' node' entry.caches entry'.caches halike
  rw [(entry.spelled hprepare).2.2, (entry'.spelled hprepare').2.2]
  simp only [Graph.ingredients, Ingredients.mk.injEq]
  refine ⟨htype, hparams, congrArg (fun ports => (Dict.ofList ports).get?) ?_⟩
  apply map_ports_eq hreading
  simpa only [Graph.wires, List.map_flatMap, List.map_map, Function.comp_def, source_hash]
    using hsources

end EmergentFlow
