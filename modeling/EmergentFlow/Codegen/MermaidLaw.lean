import EmergentFlow.Lib.Groups
import EmergentFlow.Lib.Numbering
import EmergentFlow.Codegen.MermaidSpec

/-!
# Codegen — MermaidLaw

What the full diagram shows. The renderer is followed by the keys under which it declares
things, in the order in which it does; distinct keys have distinct ids, and every key is the
place of a visible node or of a group.
-/

namespace EmergentFlow.Mermaid

/-! ## What is declared -/

variable {try_get : String → Option Definition} {nfkd : String → String} {opts : Options}

theorem get?_alloc (ids : Allocator Key Id) (key : Key) :
    (alloc nfkd ids key).2.memo.get? key = some (alloc nfkd ids key).1 :=
  Allocator.get?_alloc _ _ _

theorem get?_alloc_of_isSome {ids : Allocator Key Id} {key key' : Key}
    (h : (ids.memo.get? key').isSome) :
    (alloc nfkd ids key).2.memo.get? key' = ids.memo.get? key' := by
  obtain ⟨mid, hmid⟩ := Option.isSome_iff_exists.mp h
  rw [hmid]
  exact Allocator.get?_alloc_of_get? _ _ hmid

instance : Inhabited Id := ⟨⟨"", by simp⟩⟩

/-- The id that a key has. -/
def mid_of (ids : Allocator Key Id) (key : Key) : Id := (ids.memo.get? key).getD default

/-- What is declared has the ids of these keys. -/
def Resolves (ids : Allocator Key Id) (made : List (Key × Label)) (ds : List (Id × Label)) : Prop :=
  ds.map (fun d => (some d.1, d.2)) = made.map fun m => (ids.memo.get? m.1, m.2)

variable {ids : Allocator Key Id} {made : List (Key × Label)} {ds : List (Id × Label)}

theorem Resolves.isSome (h : Resolves ids made ds) {m : Key × Label} (hm : m ∈ made) :
    (ids.memo.get? m.1).isSome = true := by
  have hmem : (ids.memo.get? m.1, m.2) ∈ made.map fun m => (ids.memo.get? m.1, m.2) :=
    List.mem_map_of_mem hm
  rw [← show _ = _ from h] at hmem
  obtain ⟨d, -, hd⟩ := List.mem_map.mp hmem
  rw [← (Prod.mk.inj hd).1]
  rfl

theorem Resolves.get?_eq (h : Resolves ids made ds) {m : Key × Label} (hm : m ∈ made) :
    ids.memo.get? m.1 = some (mid_of ids m.1) := by
  obtain ⟨mid, hmid⟩ := Option.isSome_iff_exists.mp (h.isSome hm)
  rw [mid_of, hmid]
  rfl

/-- A key that has no part in it may get an id. -/
theorem Resolves.alloc (h : Resolves ids made ds) (key : Key) :
    Resolves (alloc nfkd ids key).2 made ds := by
  refine Eq.trans h (List.map_congr_left fun m hm => ?_)
  rw [get?_alloc_of_isSome (h.isSome hm)]

theorem Resolves.append (h : Resolves ids made ds) {key : Key} {mid : Id}
    (hmid : ids.memo.get? key = some mid) (text : Label) :
    Resolves ids (made ++ [(key, text)]) (ds ++ [(mid, text)]) := by
  rw [Resolves, List.map_append, List.map_append, show _ = _ from h]
  simp only [List.map_cons, List.map_nil, hmid]

theorem Resolves.eq_map (h : Resolves ids made ds) :
    ds = made.map fun m => (mid_of ids m.1, m.2) := by
  have hinj : Function.Injective fun d : Id × Label => (some d.1, d.2) := by
    rintro ⟨a, b⟩ ⟨a', b'⟩ heq
    simpa using heq
  refine List.map_injective_iff.mpr hinj (Eq.trans h ?_)
  rw [List.map_map]
  refine List.map_congr_left fun m hm => ?_
  rw [h.get?_eq hm]
  rfl

/-- Distinct keys have distinct ids. -/
theorem Resolves.nodup (h : Resolves ids made ds) (hkeys : (made.map Prod.fst).Nodup) :
    (ds.map Prod.fst).Nodup := by
  have hids : ds.map Prod.fst = (made.map Prod.fst).map (mid_of ids) := by
    rw [h.eq_map, List.map_map, List.map_map]
    rfl
  rw [hids]
  refine hkeys.map_on fun key hkey key' hkey' heq => ?_
  obtain ⟨m, hm, rfl⟩ := List.mem_map.mp hkey
  obtain ⟨m', hm', rfl⟩ := List.mem_map.mp hkey'
  exact ids.distinct (h.get?_eq hm) (heq ▸ h.get?_eq hm')

/-- The keys and labels of what the renderer has declared, in order. -/
structure Renderer.Declares (r : Renderer) (made : List (Key × Label)) : Prop where
  declared : Resolves r.ids made (declarations r.lines)
  drawn : ∀ scope id mid, r.drawn.get? (scope, id) = some mid ↔
    (Kind.n, scope, id) ∈ made.map Prod.fst ∧ r.ids.memo.get? (Kind.n, scope, id) = some mid
  unlinked : links r.lines = []

variable {r : Renderer}

/-- Lines that declare nothing. -/
theorem Renderer.Declares.emit (h : r.Declares made) {lines : List Line}
    (hdeclared : declarations lines = []) (hlinks : links lines = []) :
    (r.emit lines).Declares made where
  declared := by
    rw [Renderer.emit, declarations_append, hdeclared, List.append_nil]
    exact h.declared
  drawn := h.drawn
  unlinked := by rw [Renderer.emit, links_append, hlinks, h.unlinked, List.append_nil]

/-- Another key gets its id. -/
theorem Renderer.Declares.alloc (h : r.Declares made) (key : Key) (drawn : List Drawn) :
    ({ r with ids := (alloc nfkd r.ids key).2, draw_order := drawn } : Renderer).Declares made := by
  refine ⟨h.declared.alloc key, fun scope id mid => ?_, h.unlinked⟩
  rw [h.drawn]
  refine and_congr_right fun hmem => ?_
  obtain ⟨m, hm, hkey⟩ := List.mem_map.mp hmem
  rw [← hkey, get?_alloc_of_isSome (h.declared.isSome hm)]

theorem Renderer.Declares.declared_emit (h : r.Declares made) {key : Key} {mid : Id}
    (hmid : r.ids.memo.get? key = some mid) {lines : List Line} {text : Label}
    (hdeclared : declarations lines = [(mid, text)]) :
    Resolves r.ids (made ++ [(key, text)]) (declarations (r.emit lines).lines) := by
  rw [Renderer.emit, declarations_append, hdeclared]
  exact h.declared.append hmid text

/-- The line that opens a group. -/
theorem Renderer.Declares.declare_group (h : r.Declares made) {scope : Nat} {gid : String}
    {mid : Id} (hmid : r.ids.memo.get? (Kind.g, scope, gid) = some mid) {lines : List Line}
    {text : Label} (hdeclared : declarations lines = [(mid, text)]) (hlinks : links lines = []) :
    (r.emit lines).Declares (made ++ [((Kind.g, scope, gid), text)]) where
  declared := h.declared_emit hmid hdeclared
  drawn scope id mid := by
    refine (h.drawn scope id mid).trans (and_congr_left fun _ => ?_)
    simp
  unlinked := by rw [Renderer.emit, links_append, hlinks, h.unlinked, List.append_nil]

/-- The line that declares a node, which edges can refer to from now on. -/
theorem Renderer.Declares.declare_node (h : r.Declares made) {scope : Nat} {id : String}
    {mid : Id} (hmid : r.ids.memo.get? (Kind.n, scope, id) = some mid) {lines : List Line}
    {text : Label} (hdeclared : declarations lines = [(mid, text)]) (hlinks : links lines = []) :
    (({ r with drawn := r.drawn.set (scope, id) mid } : Renderer).emit lines).Declares
      (made ++ [((Kind.n, scope, id), text)]) where
  declared := h.declared_emit hmid hdeclared
  drawn scope' id' mid' := by
    have hset : (r.drawn.set (scope, id) mid).get? (scope', id') =
        if (scope, id) = (scope', id') then some mid else r.drawn.get? (scope', id') :=
      Dict.get?_set _ _ _ _
    refine (Eq.congr_left hset).trans ?_
    by_cases heq : (scope, id) = (scope', id')
    · obtain ⟨rfl, rfl⟩ := Prod.mk.inj heq
      rw [if_pos rfl]
      constructor
      · intro hsame
        exact ⟨by simp, hmid.trans hsame⟩
      · rintro ⟨-, hget⟩
        exact hmid.symm.trans hget
    · rw [if_neg heq]
      refine (h.drawn scope' id' mid').trans (and_congr_left fun _ => ?_)
      have hother : ¬ (scope' = scope ∧ id' = id) := by
        rintro ⟨rfl, rfl⟩
        exact heq rfl
      simp [hother]
  unlinked := by rw [Renderer.emit, links_append, hlinks, List.append_nil]; exact h.unlinked

theorem Renderer.Declares.add_scope (h : r.Declares made) (graph : AnyGraph) :
    (r.add_scope graph).Declares made := ⟨h.declared, h.drawn, h.unlinked⟩

/-- A node gets its id, and then the line that declares it. -/
theorem Renderer.Declares.draw (h : r.Declares made) {n : Nat} (scope : Nat)
    (node : Node (Nested n)) (raw : List String) {lines : List Line} {text : Label}
    (hdeclared : declarations lines = [((r.draw try_get nfkd scope node raw).1, text)])
    (hlinks : links lines = []) :
    ((r.draw try_get nfkd scope node raw).2.emit lines).Declares
      (made ++ [((Kind.n, scope, node.id), text)]) :=
  (h.alloc (Kind.n, scope, node.id) _).declare_node (get?_alloc _ _) hdeclared hlinks

/-! ## One node after the other -/

/-- A node that is drawn without its inner graph. -/
theorem Renderer.Declares.emit_single (h : r.Declares made) {n : Nat} (scope : Nat)
    (node : Node (Nested n)) (level : Nat) (nested : Bool) :
    (r.emit_single try_get nfkd opts scope node level nested).Declares
      (made ++ [((Kind.n, scope, node.id), node_text try_get opts.show_types node)]) := by
  have hflattened : declarations (if nested then flattened try_get node level else []) = [] ∧
      links (if nested then flattened try_get node level else []) = [] := by
    unfold flattened
    cases nested with
    | false => exact ⟨rfl, rfl⟩
    | true =>
        cases subgraph_of node with
        | none => exact ⟨rfl, rfl⟩
        | some sub =>
            rw [if_pos rfl]
            dsimp only
            split <;> exact ⟨rfl, rfl⟩
  refine h.draw scope node (nested_ids opts.include_notes n node) ?_ ?_
  · rw [declarations_append, hflattened.1]
    rfl
  · rw [links_append, hflattened.2]
    rfl

/-- The visible nodes of an inner graph. -/
theorem Renderer.Declares.emit_inner (h : r.Declares made) {n : Nat} (scope level : Nat)
    (inner : List (Node (Nested n))) :
    (inner.foldl (fun r node => r.emit_single try_get nfkd opts scope node level true) r).Declares
      (made ++ inner.map fun node =>
        ((Kind.n, scope, node.id), node_text try_get opts.show_types node)) := by
  induction inner generalizing r made with
  | nil => simpa using h
  | cons node inner ih => simpa using ih (h.emit_single scope node level true)

theorem Renderer.scopes_emit_inner {n : Nat} (scope level : Nat) (inner : List (Node (Nested n)))
    (r : Renderer) :
    (inner.foldl (fun r node => r.emit_single try_get nfkd opts scope node level true) r).scopes =
      r.scopes := by
  induction inner generalizing r with
  | nil => rfl
  | cons node inner ih => exact ih _

/-- A place in the diagram: the node there, the key of its id and its label. -/
structure Placed where
  address : Address
  key : Key
  text : Label

section Made

variable (try_get opts)

/-- A node and, as scope `k`, the visible nodes of its inner graph. -/
def placed (k : Nat) {n : Nat} (node : Node (Nested n)) : List Placed :=
  ⟨[node.id], (Kind.n, 0, node.id), node_text try_get opts.show_types node⟩ ::
    match block_of opts.include_notes node with
    | none => []
    | some sub => (visible_nodes opts.include_notes sub.2).map fun inner =>
        ⟨[node.id, inner.id], (Kind.n, k, inner.id), node_text try_get opts.show_types inner⟩

/-- The scope that a node adds, if it is drawn as a block. -/
def node_scope {n : Nat} (node : Node (Nested n)) : Option Scope :=
  (block_of opts.include_notes node).map fun sub => ⟨sub, order sub.2⟩

/-- The nodes with the scopes of their inner graphs, when the first is scope `k`. -/
def with_scopes (k : Nat) {n : Nat} (nodes : List (Node (Nested n))) :
    List (Node (Nested n) × Nat) :=
  Numbering.numbered (fun node => (node_scope opts node).toList.length) k nodes

def all_placed (k : Nat) {n : Nat} (nodes : List (Node (Nested n))) : List Placed :=
  (with_scopes opts k nodes).flatMap fun x => placed try_get opts x.2 x.1

/-- What is declared at the places. -/
def nodes_made (k : Nat) {n : Nat} (nodes : List (Node (Nested n))) : List (Key × Label) :=
  (all_placed try_get opts k nodes).map fun p => (p.key, p.text)

end Made

theorem nodes_made_append {n : Nat} (k : Nat) (a b : List (Node (Nested n))) :
    nodes_made try_get opts k (a ++ b) = nodes_made try_get opts k a ++
      nodes_made try_get opts (k + (a.filterMap (node_scope opts)).length) b := by
  rw [nodes_made, all_placed, with_scopes, Numbering.numbered_append, List.flatMap_append,
    ← Numbering.length_filterMap, List.map_append]
  rfl

variable (nfkd opts) in
theorem Renderer.Declares.emit_node (h : r.Declares made) {n : Nat} (node : Node (Nested n))
    (level : Nat) : (r.emit_node try_get nfkd opts 0 node level).Declares
        (made ++ nodes_made try_get opts r.scopes.length [node]) ∧
      (r.emit_node try_get nfkd opts 0 node level).scopes =
        r.scopes ++ (node_scope opts node).toList := by
  have hmade : nodes_made try_get opts r.scopes.length [node] =
      (placed try_get opts r.scopes.length node).map fun p => (p.key, p.text) :=
    congrArg _ (List.append_nil _)
  rw [hmade]
  unfold Renderer.emit_node placed node_scope
  cases block_of opts.include_notes node with
  | none => exact ⟨h.emit_single 0 node level false, (List.append_nil r.scopes).symm⟩
  | some sub =>
      have hopened : (((r.draw try_get nfkd 0 node [node.id]).2.emit
          [.subgraph level (r.draw try_get nfkd 0 node [node.id]).1
            (node_text try_get opts.show_types node)]).add_scope sub).Declares
              (made ++ [((Kind.n, 0, node.id), node_text try_get opts.show_types node)]) :=
        (h.draw 0 node [node.id] rfl rfl).add_scope sub
      refine ⟨?_, Renderer.scopes_emit_inner _ _ _ _⟩
      rw [List.map_cons, List.map_map, List.append_cons]
      exact (hopened.emit_inner r.scopes.length (level + 1)
        (visible_nodes opts.include_notes sub.2)).emit rfl rfl

/-- How far the renderer has come: the nodes and the groups emitted so far. -/
structure Renderer.Progress (try_get : String → Option Definition) (opts : Options) {n : Nat}
    (graph : Graph (Nested n)) (r : Renderer) (tops : List (Node (Nested n)))
    (gs : List (Key × Label)) : Prop where
  made : ∃ made, r.Declares made ∧ made.Perm (gs ++ nodes_made try_get opts 1 tops)
  scopes : r.scopes = ⟨⟨n, graph⟩, order graph⟩ :: tops.filterMap (node_scope opts)

section Progress

variable {n : Nat} {graph : Graph (Nested n)} {tops : List (Node (Nested n))}
  {gs : List (Key × Label)}

theorem Renderer.Progress.emit_node (h : r.Progress try_get opts graph tops gs)
    (node : Node (Nested n)) (level : Nat) :
    (r.emit_node try_get nfkd opts 0 node level).Progress try_get opts graph (tops ++ [node])
      gs := by
  obtain ⟨made, hdeclares, hperm⟩ := h.made
  obtain ⟨hnext, hscopes⟩ := hdeclares.emit_node nfkd opts node level
  refine ⟨⟨_, hnext, ?_⟩, ?_⟩
  · have hlength : r.scopes.length = 1 + (tops.filterMap (node_scope opts)).length := by
      rw [h.scopes, List.length_cons, Nat.add_comm]
    rw [nodes_made_append, hlength, ← List.append_assoc]
    exact hperm.append_right _
  · rw [hscopes, h.scopes, List.filterMap_append, List.cons_append]
    cases hscope : node_scope opts node <;> simp [hscope]

theorem Renderer.Progress.emit_nodes (h : r.Progress try_get opts graph tops gs) (level : Nat)
    (nodes : List (Node (Nested n))) :
    (nodes.foldl (fun r node => r.emit_node try_get nfkd opts 0 node level) r).Progress try_get opts
      graph (tops ++ nodes) gs := by
  induction nodes generalizing r tops with
  | nil => simpa using h
  | cons node nodes ih => simpa using ih (h.emit_node node level)

theorem Renderer.Progress.emit_group (h : r.Progress try_get opts graph tops gs) (gid : String)
    (members : List (Node (Nested n))) :
    (r.emit_group try_get nfkd opts graph gid members).Progress try_get opts graph
      (tops ++ members) (gs ++ [((Kind.g, 0, gid), group_label graph gid)]) := by
  obtain ⟨made, hdeclares, hperm⟩ := h.made
  have hopened : (Renderer.emit { r with
        ids := (alloc nfkd r.ids (Kind.g, 0, gid)).2
        draw_order := r.draw_order ++ [Drawn.mk (alloc nfkd r.ids (Kind.g, 0, gid)).1 none [gid]] }
      [.subgraph 1 (alloc nfkd r.ids (Kind.g, 0, gid)).1 (group_label graph gid)]).Declares
        (made ++ [((Kind.g, 0, gid), group_label graph gid)]) :=
    (hdeclares.alloc (Kind.g, 0, gid) _).declare_group (get?_alloc _ _) rfl rfl
  have hmoved : (made ++ [((Kind.g, 0, gid), group_label graph gid)]).Perm
      (gs ++ [((Kind.g, 0, gid), group_label graph gid)] ++ nodes_made try_get opts 1 tops) := by
    refine (hperm.append_right _).trans ?_
    rw [List.append_assoc, List.append_assoc]
    exact List.perm_append_comm.append_left gs
  obtain ⟨⟨made', hmade', hperm'⟩, hscopes⟩ :=
    Renderer.Progress.emit_nodes ⟨⟨_, hopened, hmoved⟩, h.scopes⟩ 2 members
  exact ⟨⟨made', hmade'.emit rfl rfl, hperm'⟩, hscopes⟩

/-! ## The loop over the visible nodes -/

/-- What the loop has emitted: the nodes without a group that it has met, and all members of the
groups that it has met. -/
structure Loop (try_get : String → Option Definition) (opts : Options) (graph : Graph (Nested n))
    (state : Renderer × List String) (met : List (Node (Nested n))) : Prop where
  progress : ∃ tops gs, state.1.Progress try_get opts graph tops gs ∧
    tops.Perm (met.filter (group_of opts.groups graph · = none) ++
      state.2.flatMap (members_of opts graph)) ∧
    gs.Perm (state.2.map fun gid => ((Kind.g, 0, gid), group_label graph gid))
  nodup : state.2.Nodup
  groups : ∀ gid, gid ∈ state.2 ↔ ∃ node ∈ met, group_of opts.groups graph node = some gid

/-- What comes last may come between. -/
theorem perm_append_between {α : Type} {l a b c : List α} (h : l.Perm (a ++ b)) :
    (l ++ c).Perm (a ++ (c ++ b)) := by
  refine (h.append_right c).trans ?_
  rw [List.append_assoc]
  exact List.perm_append_comm.append_left a

theorem Loop.step {state : Renderer × List String} {met : List (Node (Nested n))}
    (h : Loop try_get opts graph state met) (node : Node (Nested n)) :
    Loop try_get opts graph (full_step try_get nfkd opts graph state node) (met ++ [node]) := by
  obtain ⟨tops, gs, hprogress, htops, hgs⟩ := h.progress
  unfold full_step
  cases hgroup : group_of opts.groups graph node with
  | none =>
      refine ⟨⟨tops ++ [node], gs, hprogress.emit_node node 1, ?_, hgs⟩, h.nodup, fun gid => ?_⟩
      · have hself : [node].filter (group_of opts.groups graph · = none) = [node] := by
          simp [hgroup]
        rw [List.filter_append, hself, List.append_assoc]
        exact perm_append_between htops
      · rw [h.groups]
        simp [or_and_right, exists_or, hgroup]
  | some gid =>
      have hself : [node].filter (group_of opts.groups graph · = none) = [] := by simp [hgroup]
      have hgroups : ∀ gid', (∃ node' ∈ met ++ [node],
          group_of opts.groups graph node' = some gid') ↔ gid' ∈ state.2 ∨ gid' = gid := by
        intro gid'
        rw [h.groups]
        simp [or_and_right, exists_or, hgroup, eq_comm]
      dsimp only
      -- the first member of a group emits all of them, the later ones nothing
      by_cases hmet : gid ∈ state.2
      · rw [if_pos hmet]
        refine ⟨⟨tops, gs, hprogress, ?_, hgs⟩, h.nodup, fun gid' => ?_⟩
        · rw [List.filter_append, hself, List.append_nil]
          exact htops
        · rw [hgroups]
          exact ⟨.inl, fun h => h.elim id fun heq => heq ▸ hmet⟩
      · rw [if_neg hmet]
        refine ⟨⟨_, _, hprogress.emit_group gid (members_of opts graph gid), ?_, ?_⟩,
          List.nodup_cons.mpr ⟨hmet, h.nodup⟩, fun gid' => ?_⟩
        · rw [List.filter_append, hself, List.append_nil, List.flatMap_cons]
          exact perm_append_between htops
        · exact (hgs.append_right _).trans List.perm_append_comm
        · rw [hgroups, List.mem_cons, or_comm]

theorem Loop.run {state : Renderer × List String} {met : List (Node (Nested n))}
    (h : Loop try_get opts graph state met) (rest : List (Node (Nested n))) :
    Loop try_get opts graph (rest.foldl (full_step try_get nfkd opts graph) state)
      (met ++ rest) := by
  induction rest generalizing state met with
  | nil => simpa using h
  | cons node rest ih => simpa using ih (h.step node)

theorem Loop.start : Loop try_get opts graph (new_renderer graph, []) [] where
  progress := ⟨[], [], ⟨⟨[], ⟨rfl, by simp [new_renderer, Renderer.add_scope], rfl⟩, .refl _⟩, rfl⟩,
    .refl _, .refl _⟩
  nodup := List.nodup_nil
  groups gid := by simp

/-- In the end every visible node was emitted once, and every group with one in it, and no
other. -/
theorem full_renderer_progress (try_get : String → Option Definition) (nfkd : String → String)
    (opts : Options) (graph : Graph (Nested n)) :
    ∃ (tops : List (Node (Nested n))) (gids : List String),
      (full_renderer try_get nfkd opts graph).Progress try_get opts graph tops
        (gids.map fun gid => ((Kind.g, 0, gid), group_label graph gid)) ∧
      tops.Perm (visible_nodes opts.include_notes graph) ∧ gids.Nodup ∧
        ∀ gid, gid ∈ gids ↔ ∃ node ∈ visible_nodes opts.include_notes graph,
          group_of opts.groups graph node = some gid := by
  let all := visible_nodes opts.include_notes graph
  have hloop : Loop try_get opts graph
      (all.foldl (full_step try_get nfkd opts graph) (new_renderer graph, [])) ([] ++ all) :=
    Loop.start.run all
  rw [List.nil_append] at hloop
  obtain ⟨tops, gs, ⟨⟨made, hmade, hperm⟩, hscopes⟩, htops, hgs⟩ := hloop.progress
  refine ⟨tops, _, ⟨⟨made, hmade, hperm.trans (hgs.append_right _)⟩, hscopes⟩, htops.trans ?_,
    hloop.nodup, hloop.groups⟩
  have hmembers := Groups.perm_flatMap_group (group_of opts.groups graph) all hloop.nodup
  have hgrouped : (all.filter fun node => (group_of opts.groups graph node).any (· ∈
        (all.foldl (full_step try_get nfkd opts graph) (new_renderer graph, [])).2)) =
      all.filter fun node => !decide (group_of opts.groups graph node = none) := by
    refine List.filter_congr fun node hnode => ?_
    cases hgroup : group_of opts.groups graph node with
    | none => simp
    | some gid => simpa using (hloop.groups gid).mpr ⟨node, hnode, hgroup⟩
  rw [hgrouped] at hmembers
  exact (hmembers.append_left _).trans (List.filter_append_perm _ _)

end Progress

/-! ## Places and ids -/

section Places

variable {n : Nat} {graph : Graph (Nested n)} {tops : List (Node (Nested n))}

variable (opts) in
theorem with_scopes_fst (k : Nat) (nodes : List (Node (Nested n))) :
    (with_scopes opts k nodes).map Prod.fst = nodes := Numbering.map_fst_numbered _ _ _

theorem mem_placed {k : Nat} {node : Node (Nested n)} {p : Placed} :
    p ∈ placed try_get opts k node ↔
      p = ⟨[node.id], (Kind.n, 0, node.id), node_text try_get opts.show_types node⟩ ∨
      ∃ sub, block_of opts.include_notes node = some sub ∧
        ∃ inner ∈ visible_nodes opts.include_notes sub.2, p = ⟨[node.id, inner.id],
          (Kind.n, k, inner.id), node_text try_get opts.show_types inner⟩ := by
  rw [placed, List.mem_cons]
  cases block_of opts.include_notes node with
  | none => simp
  | some sub => simp [eq_comm]

theorem scope_of_block {node : Node (Nested n)} {sub : AnyGraph}
    (h : block_of opts.include_notes node = some sub) :
    (node_scope opts node).toList.length = 1 := by
  rw [node_scope, h]
  rfl

theorem subgraph_of_block {node : Node (Nested n)} {sub : AnyGraph}
    (h : block_of opts.include_notes node = some sub) : subgraph_of node = some sub :=
  (Option.filter_eq_some_iff.mp h).1

/-- Two places of one node apart. -/
theorem pairwise_placed (hv : ValidWithin n graph) {k : Nat} (hk : 1 ≤ k) {node : Node (Nested n)}
    (hnode : graph.nodes.get? node.id = some node) :
    (placed try_get opts k node).Pairwise fun p q => p.key ≠ q.key ∧ p.address ≠ q.address := by
  rw [placed]
  cases hblock : block_of opts.include_notes node with
  | none => exact List.pairwise_singleton _ _
  | some sub =>
      refine List.pairwise_cons.mpr ⟨fun q hq => ?_, ?_⟩
      · obtain ⟨inner, -, rfl⟩ := List.mem_map.mp hq
        refine ⟨fun heq => ?_, fun heq => ?_⟩
        · have hscope := congrArg (fun key : Key => key.2.1) heq
          simp only at hscope
          omega
        · simp at heq
      · have hnodup := nodup_visible_ids (hv.block hnode (subgraph_of_block hblock))
          opts.include_notes
        rw [List.pairwise_map]
        refine (List.pairwise_map.mp hnodup).imp fun hne => ⟨fun heq => ?_, fun heq => ?_⟩
        · exact hne (congrArg (fun key : Key => key.2.2) heq)
        · exact hne (by simpa using heq)

variable (try_get) in
/-- No two places share their key, nor their address. -/
theorem pairwise_all_placed (hv : ValidWithin n graph)
    (htops : tops.Perm (visible_nodes opts.include_notes graph)) :
    (all_placed try_get opts 1 tops).Pairwise fun p q => p.key ≠ q.key ∧ p.address ≠ q.address := by
  have hids : ((with_scopes opts 1 tops).map fun x => x.1.id).Nodup := by
    have hnodup := (htops.map (·.id)).nodup_iff.mpr (nodup_visible_ids hv.valid opts.include_notes)
    rw [← with_scopes_fst opts 1 tops, List.map_map] at hnodup
    exact hnodup
  have hfirst : ∀ x ∈ with_scopes opts 1 tops, 1 ≤ x.2 := fun x hx => Numbering.le_of_mem hx
  rw [all_placed, List.pairwise_flatMap]
  refine ⟨fun x hx => ?_, ?_⟩
  · have hmem : x.1 ∈ tops := by
      rw [← with_scopes_fst opts 1 tops]
      exact List.mem_map_of_mem hx
    exact pairwise_placed hv (hfirst x hx)
      ((mem_visible_nodes hv.valid).mp (htops.mem_iff.mp hmem)).1
  · refine ((List.pairwise_map.mp hids).and (Numbering.pairwise_numbered _ 1 tops)).imp_of_mem ?_
    rintro x y hx hy ⟨hne, hlater⟩ p hp q hq
    have hx := hfirst x hx
    have hy := hfirst y hy
    rcases mem_placed.mp hp with rfl | ⟨sub, hsub, inner, -, rfl⟩ <;>
      rcases mem_placed.mp hq with rfl | ⟨sub', hsub', inner', -, rfl⟩
    · simp [hne]
    · simp [hne]
      omega
    · simp [hne]
      omega
    · rw [scope_of_block hsub] at hlater
      simp [hne]
      omega

end Places

section Shown

variable {n : Nat} {graph : Graph (Nested n)} {tops : List (Node (Nested n))}

/-- The places are those of the visible nodes that are inside one other node at most. -/
theorem placed_perm (hv : ValidWithin n graph)
    (htops : tops.Perm (visible_nodes opts.include_notes graph)) :
    ((all_placed try_get opts 1 tops).map fun p => (p.address, p.text)).Perm
      ((visible try_get opts n graph).filter fun p => shallow p.1) := by
  let top : Node (Nested n) → Address × Label := fun node =>
    ([node.id], node_text try_get opts.show_types node)
  let inner : Node (Nested n) → List (Address × Label) := fun node =>
    (block_of opts.include_notes node).toList.flatMap fun sub =>
      (visible_nodes opts.include_notes sub.2).map fun i =>
        ([node.id, i.id], node_text try_get opts.show_types i)
  have hplaced : ((all_placed try_get opts 1 tops).map fun p => (p.address, p.text)) =
      tops.flatMap fun node => top node :: inner node := by
    rw [← with_scopes_fst opts 1 tops, List.flatMap_map, with_scopes_fst, all_placed,
      List.map_flatMap]
    congr 1
    funext x
    rw [placed]
    cases hblock : block_of opts.include_notes x.1 with
    | none => simp [top, inner, hblock]
    | some sub => simp [top, inner, hblock, Function.comp_def]
  have hvalues := htops.trans (perm_visible_nodes hv.valid opts.include_notes)
  rw [hplaced, visible_shallow]
  refine (List.map_append_flatMap_perm tops top inner).symm.trans
    ((hvalues.map top).append ((hvalues.flatMap_right inner).trans ?_))
  refine List.Perm.flatMap_left _ fun node hnode => ?_
  have hget := ((mem_visible_nodes hv.valid).mp
    ((perm_visible_nodes hv.valid opts.include_notes).mem_iff.mpr hnode)).1
  dsimp only [inner]
  -- an empty subgraph is no block, and has no nodes to show either
  rw [flatMap_block fun sub _ hnil => by rw [hnil]; rfl]
  refine List.Perm.flatMap_left _ fun sub hsub => ?_
  have hsub := hv.block hget (Option.mem_toList.mp hsub)
  refine (List.Perm.of_eq ?_).trans ((own_nodes_perm try_get opts hsub).symm.map _)
  rw [List.map_map]
  rfl

end Shown

/-! ## Edges -/

/-- The lines of the edges of one scope. -/
theorem Renderer.scope_links (r : Renderer) (scope : Scope) (k : Nat) (hdrawn : ∀ id,
      r.drawn.get? (k, id) =
        if (scope.graph.2.nodes.get? id).any (is_visible opts.include_notes) then
          some (mid_of r.ids (Kind.n, k, id)) else none) :
    links ((scope.graph.2.edges.values.filterMap (r.keyed opts scope k)).map Prod.snd) =
      (scope.graph.2.edges.values.filter (joins_visible opts scope.graph.2)).map fun e =>
        (mid_of r.ids (Kind.n, k, e.source.node_id), mid_of r.ids (Kind.n, k, e.target.node_id),
          edge_text (edge_label opts scope.graph.2 e)) := by
  induction scope.graph.2.edges.values with
  | nil => rfl
  | cons e edges ih =>
      have hkeyed : (r.keyed opts scope k e).map (fun x => x.2.link) =
          if joins_visible opts scope.graph.2 e then
            some (some (mid_of r.ids (Kind.n, k, e.source.node_id),
              mid_of r.ids (Kind.n, k, e.target.node_id),
              edge_text (edge_label opts scope.graph.2 e))) else none := by
        rw [Renderer.keyed, hdrawn, hdrawn, joins_visible]
        -- an edge is kept when both of its ends are drawn, which is when both are visible
        by_cases hsource : (scope.graph.2.nodes.get? e.source.node_id).any
            (is_visible opts.include_notes) = true
        · by_cases htarget : (scope.graph.2.nodes.get? e.target.node_id).any
              (is_visible opts.include_notes) = true
          · simp only [hsource, htarget]
            rfl
          · simp [hsource, htarget]
        · simp [hsource]
      rw [List.filterMap_cons, List.filter_cons]
      by_cases hjoins : joins_visible opts scope.graph.2 e = true
      · rw [if_pos hjoins] at hkeyed ⊢
        obtain ⟨x, hx, hlink⟩ := Option.map_eq_some_iff.mp hkeyed
        rw [hx, List.map_cons, List.map_cons, ← ih]
        exact List.filterMap_cons_some hlink
      · rw [if_neg hjoins] at hkeyed ⊢
        rw [Option.map_eq_none_iff.mp hkeyed]
        exact ih

section Faithful

variable {n : Nat} {graph : Graph (Nested n)} {tops : List (Node (Nested n))}
  {gids : List String}

/-- A function with given values at the distinct images of a list. -/
theorem exists_of_pairwise {α β γ : Type} [Nonempty γ] {l : List α} {f : α → β}
    (h : l.Pairwise fun a b => f a ≠ f b) (g : α → γ) :
    ∃ name : β → γ, ∀ a ∈ l, name (f a) = g a := by
  classical
  refine ⟨fun b => if hb : ∃ a ∈ l, f a = b then g hb.choose else Classical.arbitrary γ,
    fun a ha => ?_⟩
  have hex : ∃ a' ∈ l, f a' = f a := ⟨a, ha, rfl⟩
  have hinj := List.inj_on_of_nodup_map (List.pairwise_map.mpr h)
  dsimp only
  rw [dif_pos hex, hinj hex.choose_spec.1 ha hex.choose_spec.2]

/-- Where the drawn edges can end. -/
theorem Renderer.Declares.drawn_eq (h : r.Declares made) (k : Nat) (id : String) :
    r.drawn.get? (k, id) =
      if (Kind.n, k, id) ∈ made.map Prod.fst then some (mid_of r.ids (Kind.n, k, id)) else none := by
  by_cases hmem : (Kind.n, k, id) ∈ made.map Prod.fst
  · obtain ⟨m, hm, hkey⟩ := List.mem_map.mp hmem
    have hmid := h.declared.get?_eq hm
    rw [hkey] at hmid
    rw [if_pos hmem]
    exact (h.drawn k id _).mpr ⟨hmem, hmid⟩
  · rw [if_neg hmem, Option.eq_none_iff_forall_ne_some]
    exact fun mid hmid => hmem ((h.drawn k id mid).mp hmid).1

/-- The keys of nodes are those of the places. -/
theorem mem_made_iff {k : Nat} {id : String} (hmade : made.Perm
      ((gids.map fun gid => ((Kind.g, 0, gid), group_label graph gid)) ++
        nodes_made try_get opts 1 tops)) :
    (Kind.n, k, id) ∈ made.map Prod.fst ↔
      ∃ p ∈ all_placed try_get opts 1 tops, p.key = (Kind.n, k, id) := by
  rw [(hmade.map Prod.fst).mem_iff]
  simp [nodes_made]

theorem mem_tops {x : Node (Nested n) × Nat} (hx : x ∈ with_scopes opts 1 tops) : x.1 ∈ tops := by
  rw [← with_scopes_fst opts 1 tops]
  exact List.mem_map_of_mem hx

theorem top_key_iff (hv : ValidWithin n graph)
    (htops : tops.Perm (visible_nodes opts.include_notes graph)) {id : String} :
    (∃ p ∈ all_placed try_get opts 1 tops, p.key = (Kind.n, 0, id)) ↔
      (graph.nodes.get? id).any (is_visible opts.include_notes) = true := by
  rw [← visible_id_iff hv.valid]
  constructor
  · rintro ⟨p, hp, hkey⟩
    obtain ⟨x, hx, hp⟩ := List.mem_flatMap.mp hp
    rcases mem_placed.mp hp with rfl | ⟨sub, -, inner, -, rfl⟩
    · exact ⟨x.1, htops.mem_iff.mp (mem_tops hx), congrArg (fun key : Key => key.2.2) hkey⟩
    · have hfirst : 1 ≤ x.2 := Numbering.le_of_mem hx
      have hscope : x.2 = 0 := congrArg (fun key : Key => key.2.1) hkey
      omega
  · rintro ⟨node, hnode, rfl⟩
    have hmem := htops.mem_iff.mpr hnode
    rw [← with_scopes_fst opts 1 tops] at hmem
    obtain ⟨x, hx, rfl⟩ := List.mem_map.mp hmem
    exact ⟨_, List.mem_flatMap.mpr ⟨x, hx, mem_placed.mpr (.inl rfl)⟩, rfl⟩

theorem block_key_iff (hv : ValidWithin n graph)
    (htops : tops.Perm (visible_nodes opts.include_notes graph)) {x : Node (Nested n) × Nat}
    (hx : x ∈ with_scopes opts 1 tops) {sub : AnyGraph}
    (hsub : block_of opts.include_notes x.1 = some sub) {id : String} :
    (∃ p ∈ all_placed try_get opts 1 tops, p.key = (Kind.n, x.2, id)) ↔
      (sub.2.nodes.get? id).any (is_visible opts.include_notes) = true := by
  have hget := ((mem_visible_nodes hv.valid).mp (htops.mem_iff.mp (mem_tops hx))).1
  rw [← visible_id_iff (hv.block hget (subgraph_of_block hsub))]
  constructor
  · rintro ⟨p, hp, hkey⟩
    obtain ⟨y, hy, hp⟩ := List.mem_flatMap.mp hp
    have hfirst : 1 ≤ x.2 := Numbering.le_of_mem hx
    rcases mem_placed.mp hp with rfl | ⟨sub', hsub', inner, hinner, rfl⟩
    · have hscope : 0 = x.2 := congrArg (fun key : Key => key.2.1) hkey
      omega
    · have hscope : y.2 = x.2 := congrArg (fun key : Key => key.2.1) hkey
      obtain rfl : y = x := by
        refine Numbering.eq_of_number_eq hy hx ?_ ?_ hscope
        · rw [scope_of_block hsub']
          exact Nat.one_pos
        · rw [scope_of_block hsub]
          exact Nat.one_pos
      rw [hsub] at hsub'
      cases hsub'
      exact ⟨inner, hinner, congrArg (fun key : Key => key.2.2) hkey⟩
  · rintro ⟨inner, hinner, rfl⟩
    exact ⟨_, List.mem_flatMap.mpr ⟨x, hx, mem_placed.mpr (.inr ⟨sub, hsub, inner, hinner, rfl⟩)⟩,
      rfl⟩

/-- The ids of the places, by address. -/
structure Named (r : Renderer) (ps : List Placed) (name : Address → Id) : Prop where
  at_place : ∀ p ∈ ps, name p.address = mid_of r.ids p.key

theorem Named.top {name : Address → Id} (h : Named r (all_placed try_get opts 1 tops) name)
    (hv : ValidWithin n graph) (htops : tops.Perm (visible_nodes opts.include_notes graph))
    {id : String} (hid : (graph.nodes.get? id).any (is_visible opts.include_notes) = true) :
    name [id] = mid_of r.ids (Kind.n, 0, id) := by
  obtain ⟨node, hnode, rfl⟩ := (visible_id_iff hv.valid).mpr hid
  have hmem := htops.mem_iff.mpr hnode
  rw [← with_scopes_fst opts 1 tops] at hmem
  obtain ⟨x, hx, rfl⟩ := List.mem_map.mp hmem
  exact h.at_place _ (List.mem_flatMap.mpr ⟨x, hx, mem_placed.mpr (.inl rfl)⟩)

theorem Named.block {name : Address → Id} (h : Named r (all_placed try_get opts 1 tops) name)
    {x : Node (Nested n) × Nat} (hx : x ∈ with_scopes opts 1 tops) {sub : AnyGraph}
    (hv : sub.2.Valid) (hsub : block_of opts.include_notes x.1 = some sub) {id : String}
    (hid : (sub.2.nodes.get? id).any (is_visible opts.include_notes) = true) :
    name [x.1.id, id] = mid_of r.ids (Kind.n, x.2, id) := by
  obtain ⟨inner, hinner, rfl⟩ := (visible_id_iff hv).mpr hid
  exact h.at_place _
    (List.mem_flatMap.mpr ⟨x, hx, mem_placed.mpr (.inr ⟨sub, hsub, inner, hinner, rfl⟩)⟩)

theorem links_edge_lines (r : Renderer) : (links (r.edge_lines opts)).Perm
    (r.scopes.zipIdx.flatMap fun s =>
      links ((s.1.graph.2.edges.values.filterMap (r.keyed opts s.1 s.2)).map Prod.snd)) := by
  unfold Renderer.edge_lines
  refine (((List.perm_insertionSort _ _).map Prod.snd).filterMap _).trans (List.Perm.of_eq ?_)
  rw [List.map_flatMap]
  exact List.filterMap_flatMap

/-- The edges of the diagram are those between nodes that are shown. -/
theorem edge_lines_perm (hv : ValidWithin n graph)
    (htops : tops.Perm (visible_nodes opts.include_notes graph)) (h : r.Declares made)
    (hmade : made.Perm ((gids.map fun gid => ((Kind.g, 0, gid), group_label graph gid)) ++
      nodes_made try_get opts 1 tops))
    (hscopes : r.scopes = ⟨⟨n, graph⟩, order graph⟩ :: tops.filterMap (node_scope opts))
    {name : Address → Id} (hname : Named r (all_placed try_get opts 1 tops) name) :
    (links (r.edge_lines opts)).Perm
      (((dataflow opts n graph).filter fun l => shallow l.1).map (Link.named name)) := by
  have hdrawn : ∀ k id, r.drawn.get? (k, id) =
      if ∃ p ∈ all_placed try_get opts 1 tops, p.key = (Kind.n, k, id) then
        some (mid_of r.ids (Kind.n, k, id)) else none := fun k id => by
    rw [h.drawn_eq]
    exact if_congr (mem_made_iff hmade) rfl rfl
  let lines : Scope × Nat → List (Link Id) := fun s =>
    links ((s.1.graph.2.edges.values.filterMap (r.keyed opts s.1 s.2)).map Prod.snd)
  let inner : Node (Nested n) → List (Link Address) := fun node =>
    (block_of opts.include_notes node).toList.flatMap fun sub =>
      (own_edges opts sub.2).map fun l => (node.id :: l.1, node.id :: l.2.1, l.2.2)
  -- scope 0 is the graph itself, and the k-th scope after it the k-th block
  have htop : lines (⟨⟨n, graph⟩, order graph⟩, 0) = (own_edges opts graph).map (Link.named name) :=
    (r.scope_links _ 0 fun id =>
      (hdrawn 0 id).trans (if_congr (top_key_iff hv htops) rfl rfl)).trans
      (own_edges_named fun id hid => hname.top hv htops hid)
  have hinner : ((tops.filterMap (node_scope opts)).zipIdx 1).flatMap lines =
      (tops.flatMap inner).map (Link.named name) := by
    rw [Numbering.zipIdx_filterMap, List.filterMap_eq_flatMap_toList, List.flatMap_assoc]
    conv_rhs => rw [← with_scopes_fst opts 1 tops, List.flatMap_map, List.map_flatMap]
    refine List.flatMap_congr fun x hx => ?_
    dsimp only [inner]
    cases hblock : block_of opts.include_notes x.1 with
    | none => simp [node_scope, hblock]
    | some sub =>
        have hget := ((mem_visible_nodes hv.valid).mp (htops.mem_iff.mp (mem_tops hx))).1
        have hsub := hv.block hget (subgraph_of_block hblock)
        have hlines : lines (⟨sub, order sub.2⟩, x.2) =
            (own_edges opts sub.2).map (Link.named fun a => name (x.1.id :: a)) :=
          (r.scope_links _ x.2 fun id => (hdrawn x.2 id).trans
            (if_congr (block_key_iff hv htops hx hblock) rfl rfl)).trans
              (own_edges_named (m := fun id => mid_of r.ids (Kind.n, x.2, id)) fun id hid =>
                hname.block hx hsub hblock hid)
        simp only [node_scope, hblock, Option.map_some, Option.toList_some, List.flatMap_cons,
          List.flatMap_nil, List.append_nil, hlines, List.map_map]
        rfl
  refine (links_edge_lines r).trans ?_
  rw [hscopes, List.zipIdx_cons, List.flatMap_cons, hinner, dataflow_shallow, List.map_append]
  refine List.Perm.append (List.Perm.of_eq htop) (List.Perm.map _ ?_)
  have hvalues := htops.trans (perm_visible_nodes hv.valid opts.include_notes)
  refine (hvalues.flatMap_right inner).trans (List.Perm.flatMap_left _ fun node hnode => ?_)
  have hget := ((mem_visible_nodes hv.valid).mp
    ((perm_visible_nodes hv.valid opts.include_notes).mem_iff.mpr hnode)).1
  refine List.Perm.of_eq (flatMap_block fun sub hsub hnil => ?_)
  rw [own_edges_eq_nil (hv.block hget hsub) hnil, List.map_nil]

/-! ## The whole diagram -/

/-- The line of an edge that is drawn. -/
theorem Renderer.keyed_eq_some {scope : Scope} {k : Nat} {e : Edge} {x : EdgeKey × Line}
    (h : r.keyed opts scope k e = some x) :
    ∃ a b, r.drawn.get? (k, e.source.node_id) = some a ∧
      r.drawn.get? (k, e.target.node_id) = some b ∧
        x.2 = edge_line a b (edge_label opts scope.graph.2 e) := by
  unfold Renderer.keyed at h
  cases hsource : r.drawn.get? (k, e.source.node_id) with
  | none => simp [hsource] at h
  | some a =>
      cases htarget : r.drawn.get? (k, e.target.node_id) with
      | none => simp [hsource, htarget] at h
      | some b =>
          simp only [hsource, htarget, Option.some.injEq] at h
          exact ⟨a, b, rfl, rfl, by rw [← h]⟩

/-- Edges run between declared ids. -/
theorem Renderer.Declares.link_ends (h : r.Declares made) {l : Link Id}
    (hl : l ∈ links (r.edge_lines opts)) : l.1 ∈ (declarations r.lines).map Prod.fst ∧
      l.2.1 ∈ (declarations r.lines).map Prod.fst := by
  have hdeclared : ∀ k id mid, r.drawn.get? (k, id) = some mid →
      mid ∈ (declarations r.lines).map Prod.fst := by
    intro k id mid hmid
    obtain ⟨hmem, hget⟩ := (h.drawn k id mid).mp hmid
    obtain ⟨m, hm, hkey⟩ := List.mem_map.mp hmem
    rw [h.declared.eq_map, List.map_map]
    refine List.mem_map.mpr ⟨m, hm, ?_⟩
    rw [Function.comp_apply, hkey, mid_of, hget]
    rfl
  obtain ⟨s, -, hs⟩ := List.mem_flatMap.mp ((links_edge_lines r).mem_iff.mp hl)
  obtain ⟨line, hline, hlink⟩ := List.mem_filterMap.mp hs
  obtain ⟨x, hx, rfl⟩ := List.mem_map.mp hline
  obtain ⟨e, -, hkeyed⟩ := List.mem_filterMap.mp hx
  obtain ⟨a, b, hsource, htarget, hline⟩ := Renderer.keyed_eq_some hkeyed
  rw [hline] at hlink
  obtain rfl := Option.some.inj hlink
  exact ⟨hdeclared _ _ _ hsource, hdeclared _ _ _ htarget⟩

/-- Class lines declare nothing and draw no edges. -/
theorem class_lines_plain (drawn : List Drawn) (highlight : String ⊕ List String) :
    declarations (class_lines drawn highlight) = [] ∧ links (class_lines drawn highlight) = [] := by
  have hplain : ∀ line ∈ class_lines drawn highlight,
      line.declaration = none ∧ line.link = none := by
    intro line hline
    rcases List.mem_append.mp hline with hline | hline
    · obtain ⟨fam, -, hfam⟩ := List.mem_flatMap.mp hline
      rcases List.mem_cons.mp hfam with rfl | hfam
      · exact ⟨rfl, rfl⟩
      · rw [List.mem_singleton.mp hfam]
        exact ⟨rfl, rfl⟩
    · split at hline
      · cases hline
      · rcases List.mem_cons.mp hline with rfl | hline
        · exact ⟨rfl, rfl⟩
        · rw [List.mem_singleton.mp hline]
          exact ⟨rfl, rfl⟩
  exact ⟨List.filterMap_eq_nil_iff.mpr fun line hline => (hplain line hline).1,
    List.filterMap_eq_nil_iff.mpr fun line hline => (hplain line hline).2⟩

theorem declarations_edge_lines (r : Renderer) : declarations (r.edge_lines opts) = [] := by
  refine List.filterMap_eq_nil_iff.mpr fun line hline => ?_
  obtain ⟨x, hx, rfl⟩ := List.mem_map.mp hline
  obtain ⟨s, -, hs⟩ := List.mem_flatMap.mp ((List.mem_insertionSort _).mp hx)
  obtain ⟨e, -, hkeyed⟩ := List.mem_filterMap.mp hs
  obtain ⟨a, b, -, -, hline⟩ := Renderer.keyed_eq_some hkeyed
  rw [hline]
  rfl

end Faithful

/-- The full diagram shows the visible nodes of the graph and of its visible nodes' graphs. -/
theorem render_full_faithful (try_get : String → Option Definition) (nfkd : String → String)
    (opts : Options) {n : Nat} {graph : Graph (Nested n)} (hv : ValidWithin n graph) :
    Faithful (render_full try_get nfkd opts graph) (shown_groups opts graph)
      ((visible try_get opts n graph).filter fun p => shallow p.1)
      ((dataflow opts n graph).filter fun l => shallow l.1) := by
  obtain ⟨tops, gids, ⟨⟨made, h, hmade⟩, hscopes⟩, htops, hgids, hshown⟩ :=
    full_renderer_progress try_get nfkd opts graph
  set r := full_renderer try_get nfkd opts graph with hr
  have hapart := pairwise_all_placed try_get hv htops
  obtain ⟨name, hname⟩ := exists_of_pairwise (hapart.imp And.right) fun p => mid_of r.ids p.key
  have hdeclarations :
      declarations (render_full try_get nfkd opts graph) = declarations r.lines := by
    rw [render_full, declarations_append, declarations_append, declarations_edge_lines,
      (class_lines_plain _ _).1, List.append_nil, List.append_nil]
  have hlinks : links (render_full try_get nfkd opts graph) = links (r.edge_lines opts) := by
    rw [render_full, links_append, links_append, h.unlinked, (class_lines_plain _ _).2,
      List.append_nil, List.nil_append]
  have hkeys : (made.map Prod.fst).Nodup := by
    rw [(hmade.map Prod.fst).nodup_iff, List.map_append, List.nodup_append]
    refine ⟨?_, ?_, ?_⟩
    · rw [List.map_map]
      exact hgids.map fun _ _ heq => congrArg (fun key : Key => key.2.2) heq
    · rw [nodes_made, List.map_map]
      exact List.pairwise_map.mpr (hapart.imp And.left)
    · intro key hkey key' hkey' heq
      obtain ⟨_, hg, rfl⟩ := List.mem_map.mp hkey
      obtain ⟨_, hn, rfl⟩ := List.mem_map.mp hkey'
      obtain ⟨gid, -, rfl⟩ := List.mem_map.mp hg
      obtain ⟨p, hp, rfl⟩ := List.mem_map.mp hn
      have hkind : p.key.1 = Kind.n := by
        obtain ⟨x, -, hp⟩ := List.mem_flatMap.mp hp
        rcases mem_placed.mp hp with rfl | ⟨sub, -, inner, -, rfl⟩ <;> rfl
      have hgroup : Kind.g = p.key.1 := congrArg (fun key : Key => key.1) heq
      rw [hkind] at hgroup
      cases hgroup
  have hgroups : (gids.map fun gid => (mid_of r.ids (Kind.g, 0, gid), group_label graph gid)).Perm
      ((shown_groups opts graph).map fun p => (mid_of r.ids (Kind.g, 0, p.1), p.2)) := by
    rw [shown_groups, List.map_map]
    refine List.Perm.map _ ((List.perm_ext_iff_of_nodup hgids (Groups.nodup_keys _ _)).mpr ?_)
    intro gid
    rw [hshown, Groups.mem_keys]
    simp only [(perm_visible_nodes hv.valid opts.include_notes).mem_iff]
  refine ⟨⟨name, fun gid => mid_of r.ids (Kind.g, 0, gid), ?_, ?_⟩, ?_, ?_⟩
  · have hnamed : ((all_placed try_get opts 1 tops).map fun p => (mid_of r.ids p.key, p.text)) =
        ((all_placed try_get opts 1 tops).map fun p => (p.address, p.text)).map
          fun p => (name p.1, p.2) := by
      rw [List.map_map]
      exact List.map_congr_left fun p hp => by rw [Function.comp_apply, hname p hp]
    rw [hdeclarations, h.declared.eq_map]
    refine (hmade.map _).trans ?_
    rw [List.map_append, List.map_map, nodes_made, List.map_map]
    refine hgroups.append ?_
    exact (List.Perm.of_eq hnamed).trans ((placed_perm hv htops).map _)
  · rw [hlinks]
    exact edge_lines_perm hv htops h hmade hscopes ⟨hname⟩
  · rw [hdeclarations]
    exact h.declared.nodup hkeys
  · rw [hdeclarations, hlinks]
    exact fun l hl => h.link_ends hl

end EmergentFlow.Mermaid
