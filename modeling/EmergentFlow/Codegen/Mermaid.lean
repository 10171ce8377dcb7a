import Mathlib.Data.List.Dedup
import EmergentFlow.Lib.Allocator
import EmergentFlow.Codegen.Declarative
import EmergentFlow.Codegen.MermaidText
import EmergentFlow.Codegen.NamingLaws

/-!
# Codegen — Mermaid

The Mermaid flowchart of a graph (`codegen/mermaid.py`). In full it shows every visible node,
and the composites of the graph as blocks with the visible nodes of their inner graphs; a
graph with too many nodes is shown with its groups and composites as single items, cut off at
the limit. The node registry and the NFKD form of a text are parameters.

The keys of `graph.nodes` are the ids of the nodes, so that a node stands for its key.
-/

namespace EmergentFlow.Mermaid

variable {Sub : Type}

def PRESENTATION_TYPES : List String := ["notes.markdown", "reports.result_card", "layout.callout"]

def GROUP_TYPE : String := "layout.group"

/-- `_PARAM_TITLED_TYPES`. -/
def PARAM_TITLED_TYPES : List String := [GROUP_TYPE, "layout.composite", "layout.callout"]

def DEFAULT_MAX_NODES : Int := 150

/-- What the registry knows of a node type, as far as diagrams show it. -/
structure Definition where
  label : Option String
  family : String

/-- The keyword arguments of `to_mermaid`. The nodes to highlight are given as one id or as a
collection of them. -/
structure Options where
  direction : String := "LR"
  show_types : Bool := true
  show_ports : Bool := true
  highlight : String ⊕ List String := .inr []
  groups : Bool := true
  include_notes : Bool := false
  max_nodes : Int := DEFAULT_MAX_NODES

/-! ## Ids -/

/-- The prefix of an id. -/
inductive Kind where
  | n
  | g
  deriving DecidableEq

def Kind.text : Kind → String
  | .n => "n"
  | .g => "g"

/-- The key of `_memo`: prefix, scope and raw id. -/
abbrev Key : Type := Kind × Nat × String

theorem is_plain_of_is_name_char {c : Char} (h : Naming.is_name_char c = true) :
    is_plain c = true := by
  have hother : ∀ c, c ∈ BARRED ∨ c ∈ ['T', 'R', 'L'] → Naming.is_name_char c = false := by
    have hall : ∀ c ∈ BARRED ++ ['T', 'R', 'L'], Naming.is_name_char c = false := by decide
    exact fun c hc => hall c (List.mem_append.mpr hc)
  by_contra hplain
  simp only [is_plain, Bool.and_eq_true, decide_eq_true_eq, not_and_or, not_not] at hplain
  rw [hother c hplain] at h
  cases h

section Ids

variable (nfkd : String → String)

/-- `f"{prefix}_{_slugify(raw_id) or 'x'}"`. -/
def base (key : Key) : String :=
  let slug := Naming.slugify nfkd key.2.2
  key.1.text ++ "_" ++ if slug = "" then "x" else slug

theorem is_plain_base (key : Key) : ∀ c ∈ (base nfkd key).toList, is_plain c = true := by
  have hkind : ∀ c ∈ key.1.text.toList, is_plain c = true := by
    cases key.1 <;> decide
  intro c hc
  simp only [base, String.toList_append, List.mem_append] at hc
  rcases hc with (hc | hc) | hc
  · exact hkind c hc
  · obtain rfl : c = '_' := by simpa using hc
    decide
  · split at hc
    · obtain rfl : c = 'x' := by simpa using hc
      decide
    · exact is_plain_of_is_name_char
        (List.all_eq_true.mp (Naming.slugify_all nfkd key.2.2) c hc)

/-- The ids tried for a key: the base, then with the suffixes `_2`, `_3` and so on. -/
def candidate (key : Key) (n : Nat) : Id :=
  ⟨Declarative.attr_candidate (base nfkd key) n, by
    cases n with
    | zero => exact is_plain_base nfkd key
    | succ n =>
        intro c hc
        simp only [Declarative.attr_candidate, String.toList_append, List.mem_append] at hc
        rcases hc with (hc | hc) | hc
        · exact is_plain_base nfkd key c hc
        · obtain rfl : c = '_' := by simpa using hc
          decide
        · exact is_plain_repr hc⟩

theorem candidate_injective (key : Key) : Function.Injective (candidate nfkd key) := fun _ _ h =>
  Declarative.attr_candidate_injective _ (congrArg Subtype.val h)

/-- `_IdAllocator.alloc`. -/
def alloc (ids : Allocator Key Id) (key : Key) : Id × Allocator Key Id :=
  ids.alloc (candidate_injective nfkd) key

end Ids

/-! ## Nodes -/

/-- `_order`: sorted ids where there is no topological order. -/
def order (graph : Graph Sub) : List String :=
  match topological_sort graph with
  | .ok order => order
  | .error _ => graph.nodes.keys.insertionSort (· ≤ ·)

/-- `_is_visible`. -/
def is_visible (include_notes : Bool) (node : Node Sub) : Bool :=
  node.type ≠ GROUP_TYPE && (include_notes || node.type ∉ PRESENTATION_TYPES)

/-- `[nid for nid in _order(graph) if _is_visible(graph.nodes[nid], include_notes)]`. -/
def visible_nodes (include_notes : Bool) (graph : Graph Sub) : List (Node Sub) :=
  ((order graph).filterMap graph.nodes.get?).filter (is_visible include_notes)

/-- `str.strip`. -/
def strip (s : String) : String := String.ofList (py_strip s.toList)

/-- `a or b`. -/
def or_else (a b : String) : String := if a = "" then b else a

/-- `_label_param`. -/
def label_param (node : Node Sub) : String :=
  (node.params.findSome? fun param =>
    match param.value with
    | .str value =>
        if param.name = "label" ∧ strip value ≠ "" then some (strip value) else none
    | _ => none).getD ""

section Titles

variable (try_get : String → Option Definition)

/-- `_title`. -/
def title (node : Node Sub) : String :=
  let label := if node.type ∈ PARAM_TITLED_TYPES then label_param node else ""
  let label := or_else label (strip (node.label.getD ""))
  let reg_label := ((try_get node.type).bind (·.label)).getD ""
  or_else label (or_else reg_label node.type)

/-- `_node_text`. -/
def node_text (show_types : Bool) (node : Node Sub) : Label :=
  let text := mermaid_label (title try_get node)
  if show_types ∧ title try_get node ≠ node.type then text.small (mermaid_label node.type)
  else text

/-- `_family`. -/
def family (node : Node Sub) : Option String :=
  match try_get node.type with
  | some definition => some definition.family
  | none =>
      if '.' ∈ node.type.toList then some (String.ofList (node.type.toList.takeWhile (· ≠ '.')))
      else none

end Titles

/-- `_group_name`. -/
def group_name (node : Node Sub) : String :=
  or_else (label_param node) (or_else (strip (node.label.getD "")) "Group")

/-- `_port_name(graph.nodes[ref.node_id], ref.port_id)`. -/
def port_name (graph : Graph Sub) (ref : PortRef) : String :=
  ((graph.nodes.get? ref.node_id).bind (·.port_name ref.port_id)).getD ref.port_id

/-- `_group_of`, for one visible node; no node has a group when groups are not drawn. -/
def group_of (groups : Bool) (graph : Graph Sub) (node : Node Sub) : Option String :=
  if groups then
    node.group_id.filter fun gid => (graph.nodes.get? gid).any (·.type = GROUP_TYPE)
  else none

/-- A graph of any depth. -/
abbrev AnyGraph : Type := (n : Nat) × Graph (Nested n)

/-- `node.subgraph`. -/
def subgraph_of : {n : Nat} → Node (Nested n) → Option AnyGraph
  | 0, _ => none
  | n + 1, node => node.subgraph.map fun sub => ⟨n, sub⟩

/-- `len(_visible_inner(node, include_notes))`. -/
def inner_count (include_notes : Bool) {n : Nat} (node : Node (Nested n)) : Nat :=
  match subgraph_of node with
  | none => 0
  | some sub => (visible_nodes include_notes sub.2).length

/-- The inner graph of a node that is drawn as a block: `_visible_inner` is not empty. -/
def block_of (include_notes : Bool) {n : Nat} (node : Node (Nested n)) : Option AnyGraph :=
  (subgraph_of node).filter fun sub => !(visible_nodes include_notes sub.2).isEmpty

def nested_ids_with (inside : Sub → List String) (node : Node Sub) : List String :=
  node.id :: node.subgraph.toList.flatMap inside

/-- `_nested_ids`, the set as a list. -/
def nested_ids (include_notes : Bool) : (n : Nat) → Node (Nested n) → List String
  | 0 => nested_ids_with Empty.elim
  | n + 1 => nested_ids_with fun sub : Graph (Nested n) =>
      (sub.nodes.values.filter (is_visible include_notes)).flatMap (nested_ids include_notes n)

/-- `_renderable_count`. -/
def renderable_count (include_notes : Bool) {n : Nat} (graph : Graph (Nested n)) : Nat :=
  ((graph.nodes.values.filter (is_visible include_notes)).map fun node =>
    1 + inner_count include_notes node).sum

/-! ## Lines -/

/-- `_edge_line`. -/
def edge_line (a b : Id) (label : String) : Line :=
  .edge a b (if label = "" then none else some (mermaid_label label))

/-- What is drawn: its id, its family and the raw ids it stands for. -/
structure Drawn where
  mid : Id
  family : Option String
  raw : List String

/-- `set(highlight)`, for a bare id as well. -/
def wanted (highlight : String ⊕ List String) : List String := highlight.elim (fun id => [id]) id

/-- `_class_lines`. -/
def class_lines (drawn : List Drawn) (highlight : String ⊕ List String) : List Line :=
  let families := (FAMILY_COLORS.attach.filter fun fam : Family =>
    drawn.any (·.family = some fam.1.1)).insertionSort (·.1.1 ≤ ·.1.1)
  let hl_ids := (drawn.filter fun d => d.raw.any (· ∈ wanted highlight)).map (·.mid)
  (families.flatMap fun fam =>
    [.family_def fam,
      .family_class ((drawn.filter (·.family = some fam.1.1)).map (·.mid)) fam]) ++
    if hl_ids = [] then [] else [.highlight_def, .highlight_class hl_ids]

/-! ## The full diagram -/

/-- A graph that is drawn, with its nodes in order; `pos` is the index in it. -/
structure Scope where
  graph : AnyGraph
  order : List String

structure Renderer where
  ids : Allocator Key Id := {}
  lines : List Line := []
  drawn : Dict (Nat × String) Id := Dict.empty
  draw_order : List Drawn := []
  scopes : List Scope

/-- `add_scope`; the new scope is the last. -/
def Renderer.add_scope (r : Renderer) (graph : AnyGraph) : Renderer :=
  { r with scopes := r.scopes ++ [⟨graph, order graph.2⟩] }

def Renderer.emit (r : Renderer) (lines : List Line) : Renderer :=
  { r with lines := r.lines ++ lines }

section Full

variable (try_get : String → Option Definition) (nfkd : String → String) (opts : Options)

/-- The first statements of `emit_node`: the node gets its id. -/
def Renderer.draw (r : Renderer) {n : Nat} (scope : Nat) (node : Node (Nested n))
    (raw : List String) : Id × Renderer :=
  let (mid, ids) := alloc nfkd r.ids (.n, scope, node.id)
  (mid, { r with
    ids
    drawn := r.drawn.set (scope, node.id) mid
    draw_order := r.draw_order ++ [⟨mid, family try_get node, raw⟩] })

/-- What a nested node shows of its own inner graph. -/
def flattened {n : Nat} (node : Node (Nested n)) (level : Nat) : List Line :=
  match subgraph_of node with
  | none => []
  | some sub =>
      if sub.2.nodes.size = 0 then []
      else [.flattened level (mermaid_label (title try_get node)) sub.2.nodes.size]

/-- `emit_node` where the node is drawn without its inner graph. -/
def Renderer.emit_single (r : Renderer) {n : Nat} (scope : Nat) (node : Node (Nested n))
    (level : Nat) (nested : Bool) : Renderer :=
  let (mid, r) := r.draw try_get nfkd scope node (nested_ids opts.include_notes n node)
  r.emit ((if nested then flattened try_get node level else []) ++
    [.node level mid (node_text try_get opts.show_types node)])

/-- `emit_node` where the node is drawn as a block around its inner graph. -/
def Renderer.emit_block (r : Renderer) {n : Nat} (scope : Nat) (node : Node (Nested n))
    (level : Nat) (sub : AnyGraph) : Renderer :=
  let (mid, r) := r.draw try_get nfkd scope node [node.id]
  let inner_scope := r.scopes.length
  let r := (r.add_scope sub).emit [.subgraph level mid (node_text try_get opts.show_types node)]
  let r := (visible_nodes opts.include_notes sub.2).foldl (fun r inner =>
    r.emit_single try_get nfkd opts inner_scope inner (level + 1) true) r
  r.emit [.close level]

/-- `emit_node` with `nested=False`. -/
def Renderer.emit_node (r : Renderer) {n : Nat} (scope : Nat) (node : Node (Nested n))
    (level : Nat) : Renderer :=
  match block_of opts.include_notes node with
  | none => r.emit_single try_get nfkd opts scope node level false
  | some sub => r.emit_block try_get nfkd opts scope node level sub

/-- `emit_group`. -/
def Renderer.emit_group (r : Renderer) {n : Nat} (graph : Graph (Nested n)) (gid : String)
    (members : List (Node (Nested n))) : Renderer :=
  let (gmid, ids) := alloc nfkd r.ids (.g, 0, gid)
  let name := ((graph.nodes.get? gid).map group_name).getD ""
  let r := { r with ids, draw_order := r.draw_order ++ [Drawn.mk gmid none [gid]] }
  let r := r.emit [.subgraph 1 gmid (mermaid_label name)]
  let r := members.foldl (fun r node => r.emit_node try_get nfkd opts 0 node 2) r
  r.emit [.close 1]

/-- `label` of an edge. -/
def edge_label (graph : Graph Sub) (edge : Edge) : String :=
  if opts.show_ports then
    let src := port_name graph edge.source
    let tgt := port_name graph edge.target
    if src = tgt then src else src ++ "→" ++ tgt
  else ""

/-- The sort key of an edge. -/
structure EdgeKey where
  scope : Nat
  source : Nat
  target : Nat
  id : String

/-- The order of tuples. -/
def EdgeKey.le (a b : EdgeKey) : Bool :=
  a.scope < b.scope || (a.scope = b.scope &&
    (a.source < b.source || (a.source = b.source &&
      (a.target < b.target || (a.target = b.target && a.id ≤ b.id)))))

/-- The line of an edge with its sort key, if both its ends are drawn. -/
def Renderer.keyed (r : Renderer) (scope : Scope) (scope_idx : Nat) (edge : Edge) :
    Option (EdgeKey × Line) :=
  match r.drawn.get? (scope_idx, edge.source.node_id),
    r.drawn.get? (scope_idx, edge.target.node_id) with
  | some a, some b => some (
      ⟨scope_idx, scope.order.idxOf edge.source.node_id, scope.order.idxOf edge.target.node_id,
        edge.id⟩,
      edge_line a b (edge_label opts scope.graph.2 edge))
  | _, _ => none

/-- `edge_lines`. -/
def Renderer.edge_lines (r : Renderer) : List Line :=
  let keyed := r.scopes.zipIdx.flatMap fun (scope, scope_idx) =>
    scope.graph.2.edges.values.filterMap (r.keyed opts scope scope_idx)
  (keyed.insertionSort (fun a b => a.1.le b.1)).map Prod.snd

variable {n : Nat} (graph : Graph (Nested n))

/-- The nodes that share the group. -/
def members_of (gid : String) : List (Node (Nested n)) :=
  (visible_nodes opts.include_notes graph).filter (group_of opts.groups graph · = some gid)

/-- The body of the loop of `_render_full`; the second component is `emitted`. -/
def full_step (state : Renderer × List String) (node : Node (Nested n)) : Renderer × List String :=
  match group_of opts.groups graph node with
  | none => (state.1.emit_node try_get nfkd opts 0 node 1, state.2)
  | some gid =>
      if gid ∈ state.2 then state
      else (state.1.emit_group try_get nfkd opts graph gid (members_of opts graph gid),
        gid :: state.2)

/-- `_FullRenderer.__init__`. -/
def new_renderer : Renderer := Renderer.add_scope { scopes := [] } ⟨n, graph⟩

/-- The renderer when every visible node was emitted. -/
def full_renderer : Renderer :=
  ((visible_nodes opts.include_notes graph).foldl (full_step try_get nfkd opts graph)
    (new_renderer graph, [])).1

/-- `_render_full`. -/
def render_full : List Line :=
  let r := full_renderer try_get nfkd opts graph
  r.lines ++ r.edge_lines opts ++ class_lines r.draw_order opts.highlight

end Full

/-! ## The condensed diagram -/

/-- `_Item`: an element of the condensed diagram. -/
structure Item where
  mid : Id
  text : Label
  family : Option String
  raw : List String

/-- The local variables of `_render_collapsed`. -/
structure Collapsed where
  ids : Allocator Key Id := {}
  items : List Item := []
  item_of : Dict String Nat := Dict.empty
  group_item : Dict String Nat := Dict.empty

section Condensed

variable (try_get : String → Option Definition) (nfkd : String → String) (opts : Options)
  {n : Nat} (graph : Graph (Nested n))

/-- A node without a group becomes an item. -/
def Collapsed.add_node (c : Collapsed) (node : Node (Nested n)) : Collapsed :=
  let (mid, ids) := alloc nfkd c.ids (.n, 0, node.id)
  { c with
    ids
    items := c.items ++ [⟨mid, node_text try_get opts.show_types node, family try_get node,
      nested_ids opts.include_notes n node⟩]
    item_of := c.item_of.set node.id c.items.length }

/-- The first node of a group makes the item of the group. -/
def Collapsed.add_group (c : Collapsed) (gid : String) : Collapsed :=
  let members := members_of opts graph gid
  let name := mermaid_label (((graph.nodes.get? gid).map group_name).getD "")
  let (mid, ids) := alloc nfkd c.ids (.g, 0, gid)
  { ids
    items := c.items ++ [⟨mid, name.small (node_count members.length), none,
      gid :: members.flatMap (nested_ids opts.include_notes n)⟩]
    item_of := members.foldl (fun item_of m => item_of.set m.id c.items.length) c.item_of
    group_item := c.group_item.set gid c.items.length }

/-- The body of the loop of `_render_collapsed`. -/
def collapsed_step (c : Collapsed) (node : Node (Nested n)) : Collapsed :=
  match group_of opts.groups graph node with
  | none => c.add_node try_get nfkd opts node
  | some gid =>
      match c.group_item.get? gid with
      | none => c.add_group nfkd opts graph gid
      | some i => { c with item_of := c.item_of.set node.id i }

def collapsed : Collapsed :=
  (visible_nodes opts.include_notes graph).foldl (collapsed_step try_get nfkd opts graph) {}

/-- `items[:max_nodes]`. -/
def kept : List Item := (collapsed try_get nfkd opts graph).items.take opts.max_nodes.toNat

/-- The items that an edge joins, if they are two of those kept. -/
def pair_of (item_of : Dict String Nat) (kept : Nat) (edge : Edge) : Option (Nat × Nat) :=
  match item_of.get? edge.source.node_id, item_of.get? edge.target.node_id with
  | some si, some ti => if si = ti ∨ kept ≤ si ∨ kept ≤ ti then none else some (si, ti)
  | _, _ => none

/-- `sorted(pairs)`. -/
def sorted_pairs : List (Nat × Nat) :=
  let item_of := (collapsed try_get nfkd opts graph).item_of
  ((graph.edges.values.filterMap
      (pair_of item_of (kept try_get nfkd opts graph).length)).dedup).insertionSort
    fun a b => a.1 < b.1 ∨ (a.1 = b.1 ∧ a.2 ≤ b.2)

/-- `it.mid.startswith("g_")`. -/
def Item.is_group (item : Item) : Bool := ['g', '_'].isPrefixOf item.mid.1.toList

/-- `omitted`. -/
def omitted (count : Nat) : Int :=
  count - ((kept try_get nfkd opts graph).filter (!·.is_group)).length

/-- The line of a pair, both of whose items are among those kept. -/
def pair_line (kept : List Item) (pair : Nat × Nat) : Option Line :=
  match kept[pair.1]?, kept[pair.2]? with
  | some a, some b => some (.edge a.mid b.mid none)
  | _, _ => none

/-- The lines of `_render_collapsed`. -/
def render_collapsed : List Line :=
  let kept := kept try_get nfkd opts graph
  kept.map (fun it => .node 1 it.mid it.text) ++
    (sorted_pairs try_get nfkd opts graph).filterMap (pair_line kept) ++
    class_lines (kept.map fun it => ⟨it.mid, it.family, it.raw⟩) opts.highlight

end Condensed

/-! ## `to_mermaid` -/

inductive MermaidError where
  | direction (got : String)
  | max_nodes (got : Int)
  deriving DecidableEq

section Render

variable (try_get : String → Option Definition) (nfkd : String → String) (opts : Options)
  {n : Nat} (graph : Graph (Nested n))

/-- The lines behind the first. -/
def body : List Line :=
  let count := renderable_count opts.include_notes graph
  if opts.max_nodes < count then
    .truncated (omitted try_get nfkd opts graph count) count opts.max_nodes ::
      render_collapsed try_get nfkd opts graph
  else render_full try_get nfkd opts graph

/-- `to_mermaid`. -/
def to_mermaid : Except MermaidError String :=
  if h : opts.direction = "LR" ∨ opts.direction = "TB" then
    if opts.max_nodes < 1 then .error (.max_nodes opts.max_nodes)
    else .ok (document (.header ⟨opts.direction, h⟩ :: body try_get nfkd opts graph))
  else .error (.direction opts.direction)

end Render

end EmergentFlow.Mermaid
