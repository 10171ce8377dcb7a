import EmergentFlow.Codegen.Mermaid
import EmergentFlow.Lib.Groups
import EmergentFlow.Validity.Flatten

/-!
# Codegen — MermaidSpec

What a diagram is to show: the visible nodes of a graph, wherever they are in it, and the edges
between them. A diagram is read through what its lines declare and link.
-/

namespace EmergentFlow.Mermaid

variable {Sub : Type}

/-! ## What there is to show -/

section Spec

variable (try_get : String → Option Definition) (opts : Options)

/-- What every graph has of its own, at every depth: what is inside a visible node is addressed
through it. -/
def everywhere_with {α : Type} (own : Graph Sub → List α) (through : String → α → α)
    (inside : Sub → List α) (g : Graph Sub) : List α :=
  own g ++ (g.nodes.values.filter (is_visible opts.include_notes)).flatMap fun node =>
    (node.subgraph.toList.flatMap inside).map (through node.id)

def everywhere {α : Type} (own : ∀ {Sub : Type}, Graph Sub → List α) (through : String → α → α) :
    (n : Nat) → Graph (Nested n) → List α
  | 0 => everywhere_with opts own through Empty.elim
  | n + 1 => everywhere_with opts own through (everywhere own through n)

def own_nodes (g : Graph Sub) : List (Address × Label) :=
  (g.nodes.values.filter (is_visible opts.include_notes)).map fun node =>
    ([node.id], node_text try_get opts.show_types node)

/-- The visible nodes at every depth, none of them inside one that is not visible. -/
def visible : (n : Nat) → Graph (Nested n) → List (Address × Label) :=
  everywhere opts (own_nodes try_get opts) fun id p => (id :: p.1, p.2)

/-- Both ends of the edge are visible. -/
def joins_visible (g : Graph Sub) (e : Edge) : Bool :=
  (g.nodes.get? e.source.node_id).any (is_visible opts.include_notes) &&
    (g.nodes.get? e.target.node_id).any (is_visible opts.include_notes)

/-- An edge of the diagram: where it starts, where it ends and what is written on it. -/
abbrev Link (α : Type) : Type := α × α × Option Label

def edge_text (label : String) : Option Label :=
  if label = "" then none else some (mermaid_label label)

def own_edges (g : Graph Sub) : List (Link Address) :=
  (g.edges.values.filter (joins_visible opts g)).map fun e =>
    ([e.source.node_id], [e.target.node_id], edge_text (edge_label opts g e))

/-- The edges between visible nodes, at every depth. -/
def dataflow : (n : Nat) → Graph (Nested n) → List (Link Address) :=
  everywhere opts (own_edges opts) fun id l => (id :: l.1, id :: l.2.1, l.2.2)

end Spec

/-- Inside one other node at most. -/
def shallow (address : Address) : Bool := address.length ≤ 2

/-- The graph and all graphs inside it are valid. -/
def ValidWithin : (n : Nat) → Graph (Nested n) → Prop
  | 0, g => g.Valid
  | n + 1, g => g.Valid ∧ ∀ id node (sub : Graph (Nested n)),
      g.nodes.get? id = some node → node.subgraph = some sub → ValidWithin n sub

/-! ## Reading a diagram -/

/-- What a line declares: an id and its label. -/
def Line.declaration : Line → Option (Id × Label)
  | .node _ mid text => some (mid, text)
  | .subgraph _ mid text => some (mid, text)
  | _ => none

def Line.link : Line → Option (Link Id)
  | .edge a b label => some (a, b, label)
  | _ => none

def declarations (lines : List Line) : List (Id × Label) := lines.filterMap Line.declaration

def links (lines : List Line) : List (Link Id) := lines.filterMap Line.link

@[simp] theorem declarations_append (a b : List Line) :
    declarations (a ++ b) = declarations a ++ declarations b := List.filterMap_append

@[simp] theorem links_append (a b : List Line) : links (a ++ b) = links a ++ links b :=
  List.filterMap_append

/-! ## The visible nodes of a graph -/

theorem ValidWithin.valid {n : Nat} {g : Graph (Nested n)} (h : ValidWithin n g) : g.Valid := by
  cases n with
  | zero => exact h
  | succ n => exact h.1

theorem perm_order {g : Graph Sub} (hv : g.Valid) : (order g).Perm g.nodes.keys := by
  unfold order
  cases hsort : topological_sort g with
  | ok order => exact (topological_sort_eq_ok hv hsort).1
  | error e => exact List.perm_insertionSort _ _

theorem map_id_values {g : Graph Sub} (hv : g.Valid) :
    g.nodes.values.map (·.id) = g.nodes.keys := by
  rw [Dict.values, Dict.keys, List.map_map]
  exact List.map_congr_left fun e he => hv.node_id ((Dict.mem_entries_iff _).mp he)

/-- Looked up key by key, a dictionary is its values. -/
theorem filterMap_get?_keys {κ α : Type} [DecidableEq κ] (d : Dict κ α) :
    d.keys.filterMap d.get? = d.values := by
  rw [Dict.keys, List.filterMap_map, Dict.values, ← List.filterMap_eq_map]
  exact List.filterMap_congr fun e he => (Dict.mem_entries_iff d).mp he

theorem perm_visible_nodes {g : Graph Sub} (hv : g.Valid) (notes : Bool) :
    (visible_nodes notes g).Perm (g.nodes.values.filter (is_visible notes)) := by
  rw [visible_nodes, ← filterMap_get?_keys]
  exact ((perm_order hv).filterMap _).filter _

theorem nodup_visible_ids {g : Graph Sub} (hv : g.Valid) (notes : Bool) :
    ((visible_nodes notes g).map (·.id)).Nodup := by
  refine ((perm_visible_nodes hv notes).map _).nodup_iff.mpr ?_
  have hnodup := g.nodes.nodup_keys
  rw [← map_id_values hv] at hnodup
  exact hnodup.sublist (List.filter_sublist.map _)

theorem mem_visible_nodes {g : Graph Sub} (hv : g.Valid) {notes : Bool} {node : Node Sub} :
    node ∈ visible_nodes notes g ↔
      g.nodes.get? node.id = some node ∧ is_visible notes node = true := by
  rw [(perm_visible_nodes hv notes).mem_iff, List.mem_filter, Dict.mem_values_iff]
  refine and_congr_left fun _ => ⟨?_, fun h => ⟨_, h⟩⟩
  rintro ⟨id, hid⟩
  rw [hv.node_id hid]
  exact hid

/-- The graph drawn inside a node is valid too. -/
theorem ValidWithin.block {n : Nat} {g : Graph (Nested n)} (h : ValidWithin n g)
    {node : Node (Nested n)} (hnode : g.nodes.get? node.id = some node) {sub : AnyGraph}
    (hsub : subgraph_of node = some sub) : sub.2.Valid := by
  cases n with
  | zero => cases hsub
  | succ n =>
      obtain ⟨inner, hinner, rfl⟩ := Option.map_eq_some_iff.mp hsub
      exact (h.2 _ _ _ hnode hinner).valid

variable {try_get : String → Option Definition} {opts : Options}

theorem visible_id_iff {g : Graph Sub} (hv : g.Valid) {notes : Bool} {id : String} :
    (∃ node ∈ visible_nodes notes g, node.id = id) ↔
      (g.nodes.get? id).any (is_visible notes) = true := by
  constructor
  · rintro ⟨node, hnode, rfl⟩
    obtain ⟨hget, hvisible⟩ := (mem_visible_nodes hv).mp hnode
    rw [hget]
    exact hvisible
  · intro hany
    cases hget : g.nodes.get? id with
    | none => simp [hget] at hany
    | some node =>
        obtain rfl : node.id = id := hv.node_id hget
        rw [hget] at hany
        exact ⟨node, (mem_visible_nodes hv).mpr ⟨hget, hany⟩, rfl⟩

/-! ## The two levels that are drawn -/

section Levels

variable {α : Type} {own : ∀ {Sub : Type}, Graph Sub → List α} {through : String → α → α}
  {depth : α → Nat}

theorem one_le_depth (hown : ∀ {Sub : Type} (g : Graph Sub), ∀ a ∈ own g, depth a = 1)
    (hthrough : ∀ id a, depth (through id a) = depth a + 1) (n : Nat) (g : Graph (Nested n)) :
    ∀ a ∈ everywhere opts own through n g, 1 ≤ depth a := by
  have hlevel : ∀ {Sub : Type} (inside : Sub → List α) (g : Graph Sub),
      ∀ a ∈ everywhere_with opts own through inside g, 1 ≤ depth a := by
    intro Sub inside g a ha
    rcases List.mem_append.mp ha with ha | ha
    · rw [hown g a ha]
    · obtain ⟨node, -, hnode⟩ := List.mem_flatMap.mp ha
      obtain ⟨b, -, rfl⟩ := List.mem_map.mp hnode
      rw [hthrough]
      omega
  cases n with
  | zero => exact hlevel _ g
  | succ n => exact hlevel _ g

/-- One level of the graph, cut off at some depth. -/
theorem filter_everywhere_with (hown : ∀ {Sub : Type} (g : Graph Sub), ∀ a ∈ own g, depth a = 1)
    (hthrough : ∀ id a, depth (through id a) = depth a + 1) (inside : Sub → List α) (limit : Nat)
    (g : Graph Sub) : (everywhere_with opts own through inside g).filter (depth · ≤ limit + 1) =
      own g ++ (g.nodes.values.filter (is_visible opts.include_notes)).flatMap fun node =>
        node.subgraph.toList.flatMap fun sub =>
          ((inside sub).filter (depth · ≤ limit)).map (through node.id) := by
  have hkeep : (own g).filter (depth · ≤ limit + 1) = own g :=
    List.filter_eq_self.mpr fun a ha => by simp [hown g a ha]
  rw [everywhere_with, List.filter_append, hkeep, List.filter_flatMap]
  congr 2
  funext node
  rw [List.map_flatMap, List.filter_flatMap]
  congr 1
  funext sub
  rw [List.filter_map]
  congr 2
  funext a
  simp [hthrough]

/-- What a graph has of its own. -/
theorem everywhere_own (hown : ∀ {Sub : Type} (g : Graph Sub), ∀ a ∈ own g, depth a = 1)
    (hthrough : ∀ id a, depth (through id a) = depth a + 1) (n : Nat) (g : Graph (Nested n)) :
    (everywhere opts own through n g).filter (depth · ≤ 1) = own g := by
  have hlevel : ∀ {Sub : Type} (inside : Sub → List α) (g : Graph Sub),
      (∀ sub, ∀ a ∈ inside sub, 1 ≤ depth a) →
      (everywhere_with opts own through inside g).filter (depth · ≤ 1) = own g := by
    intro Sub inside g hinside
    have hnone : ∀ sub, (inside sub).filter (depth · ≤ 0) = [] := fun sub =>
      List.filter_eq_nil_iff.mpr fun a ha => by
        have := hinside sub a ha
        simp only [decide_eq_true_eq]
        omega
    rw [filter_everywhere_with hown hthrough inside 0 g]
    simp only [hnone, List.map_nil]
    simp
  cases n with
  | zero => exact hlevel _ g fun sub => sub.elim
  | succ n => exact hlevel _ g (one_le_depth hown hthrough n)

variable (depth) in
/-- What the graph and the graphs in its visible nodes have of their own. -/
theorem everywhere_shallow (hown : ∀ {Sub : Type} (g : Graph Sub), ∀ a ∈ own g, depth a = 1)
    (hthrough : ∀ id a, depth (through id a) = depth a + 1) (n : Nat) (g : Graph (Nested n)) :
    (everywhere opts own through n g).filter (depth · ≤ 2) =
      own g ++ (g.nodes.values.filter (is_visible opts.include_notes)).flatMap fun node =>
        (subgraph_of node).toList.flatMap fun sub => (own sub.2).map (through node.id) := by
  cases n with
  | zero =>
      refine (filter_everywhere_with hown hthrough _ 1 g).trans ?_
      congr 2
      funext node
      cases node.subgraph with
      | none => rfl
      | some sub => exact sub.elim
  | succ n =>
      refine (filter_everywhere_with hown hthrough _ 1 g).trans ?_
      congr 2
      funext node
      rw [subgraph_of]
      cases node.subgraph with
      | none => rfl
      | some sub =>
          have hinner : (everywhere opts own through n sub).filter (depth · ≤ 1) =
              @own (Nested n) sub := everywhere_own hown hthrough n sub
          refine (List.append_nil _).trans ((congrArg _ hinner).trans ?_)
          exact (List.append_nil _).symm

end Levels

theorem visible_shallow (n : Nat) (g : Graph (Nested n)) :
    (visible try_get opts n g).filter (fun p => shallow p.1) =
      own_nodes try_get opts g ++
        (g.nodes.values.filter (is_visible opts.include_notes)).flatMap fun node =>
          (subgraph_of node).toList.flatMap fun sub =>
            (own_nodes try_get opts sub.2).map fun p => (node.id :: p.1, p.2) := by
  refine everywhere_shallow (fun p : Address × Label => p.1.length) (fun g a ha => ?_)
    (fun _ _ => rfl) n g
  obtain ⟨node, -, rfl⟩ := List.mem_map.mp ha
  rfl

theorem dataflow_shallow (n : Nat) (g : Graph (Nested n)) :
    (dataflow opts n g).filter (fun l => shallow l.1) =
      own_edges opts g ++
        (g.nodes.values.filter (is_visible opts.include_notes)).flatMap fun node =>
          (subgraph_of node).toList.flatMap fun sub =>
            (own_edges opts sub.2).map fun l => (node.id :: l.1, node.id :: l.2.1, l.2.2) := by
  refine everywhere_shallow (fun l : Link Address => l.1.length) (fun g a ha => ?_)
    (fun _ _ => rfl) n g
  obtain ⟨e, -, rfl⟩ := List.mem_map.mp ha
  rfl

/-- What is made of the blocks alone, when nothing is made of graphs without visible nodes. -/
theorem flatMap_block {α : Type} {n : Nat} {node : Node (Nested n)} {f : AnyGraph → List α}
    (hnil : ∀ sub, subgraph_of node = some sub → visible_nodes opts.include_notes sub.2 = [] →
      f sub = []) :
    (block_of opts.include_notes node).toList.flatMap f = (subgraph_of node).toList.flatMap f := by
  rw [block_of]
  cases hsub : subgraph_of node with
  | none => rfl
  | some sub =>
      by_cases hempty : visible_nodes opts.include_notes sub.2 = []
      · simp [Option.filter, hempty, hnil sub hsub hempty]
      · simp [Option.filter, hempty]

variable (try_get opts) in
theorem own_nodes_perm {g : Graph Sub} (hv : g.Valid) :
    (own_nodes try_get opts g).Perm ((visible_nodes opts.include_notes g).map fun node =>
      ([node.id], node_text try_get opts.show_types node)) :=
  ((perm_visible_nodes hv opts.include_notes).map _).symm

/-! ## Diagrams that show nodes and edges -/

/-- An edge with ids at its ends in place of addresses. -/
def Link.named (name : Address → Id) (l : Link Address) : Link Id := (name l.1, name l.2.1, l.2.2)

/-- The edges of a graph whose visible nodes have these ids. -/
theorem own_edges_named {g : Graph Sub} {m : String → Id} {place : Address → Id}
    (h : ∀ id, (g.nodes.get? id).any (is_visible opts.include_notes) = true → place [id] = m id) :
    ((g.edges.values.filter (joins_visible opts g)).map fun e =>
        (m e.source.node_id, m e.target.node_id, edge_text (edge_label opts g e))) =
      (own_edges opts g).map (Link.named place) := by
  rw [own_edges, List.map_map]
  refine List.map_congr_left fun e he => ?_
  obtain ⟨hsource, htarget⟩ := Bool.and_eq_true_iff.mp (List.mem_filter.mp he).2
  simp only [Function.comp_apply, Link.named, h _ hsource, h _ htarget]

/-- Without visible nodes there are no edges between them. -/
theorem own_edges_eq_nil {g : Graph Sub} (hv : g.Valid)
    (h : visible_nodes opts.include_notes g = []) : own_edges opts g = [] := by
  rw [own_edges, List.map_eq_nil_iff, List.filter_eq_nil_iff]
  intro e _ hjoins
  obtain ⟨node, hnode, -⟩ := (visible_id_iff hv).mpr (Bool.and_eq_true_iff.mp hjoins).1
  rw [h] at hnode
  cases hnode

/-! ## Groups -/

/-- What an item of the condensed diagram stands for. -/
inductive Content where
  | node (address : Address)
  | group (gid : String)
  deriving DecidableEq

def Content.node? : Content → Option Address
  | .node address => some address
  | .group _ => none

section Groups

variable {n : Nat}

/-- The label of a group. -/
def group_label (graph : Graph (Nested n)) (gid : String) : Label :=
  mermaid_label (((graph.nodes.get? gid).map group_name).getD "")

variable (try_get opts)

/-- The groups that have a visible node in them, each once. -/
def shown_groups (graph : Graph (Nested n)) : List (String × Label) :=
  (Groups.keys (group_of opts.groups graph)
    (graph.nodes.values.filter (is_visible opts.include_notes))).map fun gid =>
      (gid, group_label graph gid)

/-- What the condensed diagram draws for a visible node: itself, or its group with the number of
visible nodes in it. -/
def item (graph : Graph (Nested n)) (node : Node (Nested n)) : Content × Label :=
  match group_of opts.groups graph node with
  | none => (.node [node.id], node_text try_get opts.show_types node)
  | some gid => (.group gid,
      (group_label graph gid).small (node_count (members_of opts graph gid).length))

/-- All there is to draw, a group at the place of the first of its nodes. -/
def items (graph : Graph (Nested n)) : List (Content × Label) :=
  ((visible_nodes opts.include_notes graph).map (item try_get opts graph)).eraseDups

end Groups

/-- The diagram shows these groups, these nodes and these edges: each group and each node has an
id of its own and is declared once, with its label, each edge is drawn between the ids of its
ends, and nothing else is declared or drawn. -/
structure Faithful (lines : List Line) (groups : List (String × Label))
    (nodes : List (Address × Label)) (edges : List (Link Address)) : Prop where
  shown : ∃ (name : Address → Id) (group_id : String → Id),
    (declarations lines).Perm
      (groups.map (fun p => (group_id p.1, p.2)) ++ nodes.map fun p => (name p.1, p.2)) ∧
      (links lines).Perm (edges.map (Link.named name))
  distinct : ((declarations lines).map Prod.fst).Nodup
  ends : ∀ l ∈ links lines, l.1 ∈ (declarations lines).map Prod.fst ∧
    l.2.1 ∈ (declarations lines).map Prod.fst

/-- Of the items the first are drawn, as many as the limit allows, each under an id of its own
and in this order, and nothing else; a comment says how many of the nodes are not drawn one by
one, and these and the nodes that are make all of them. -/
structure Condensed (lines : List Line) (items : List (Content × Label))
    (nodes : List (Address × Label)) (limit : Int) : Prop where
  shown : ∃ (name : Content → Id) (omitted : Int),
    declarations lines = (items.take limit.toNat).map (fun it => (name it.1, it.2)) ∧
      .truncated omitted nodes.length limit ∈ lines ∧
      ((items.take limit.toNat).filter (·.1.node?.isSome)).length + omitted = nodes.length ∧
      0 ≤ omitted
  single : (items.filterMap fun it => it.1.node?.map (·, it.2)).Subperm nodes
  distinct : ((declarations lines).map Prod.fst).Nodup
  bounded : (declarations lines).length ≤ limit

end EmergentFlow.Mermaid
