import EmergentFlow.Codegen.MermaidLaw

/-!
# Codegen — MermaidRender

What the condensed diagram shows, and with it what `to_mermaid` promises of every graph. An
item of the condensed diagram is a visible node without a group or a group with all its
members; the nodes that are no items of their own, and those cut off, are counted as omitted.
-/

namespace EmergentFlow.Mermaid

variable {try_get : String → Option Definition} {nfkd : String → String} {opts : Options}
  {n : Nat} {graph : Graph (Nested n)}

/-! ## The items -/

/-- The ids of groups start with `g_`, those of nodes do not. -/
theorem is_group_candidate (key : Key) (i : Nat) :
    ['g', '_'].isPrefixOf (candidate nfkd key i).1.toList = decide (key.1 = .g) := by
  obtain ⟨kind, scope, id⟩ := key
  have hbase : ∃ tail, (candidate nfkd (kind, scope, id) i).1.toList =
      kind.text.toList ++ '_' :: tail := by
    obtain ⟨slug, hbase⟩ : ∃ slug : String, base nfkd (kind, scope, id) = kind.text ++ "_" ++ slug :=
      ⟨_, rfl⟩
    have hlong : ∀ rest : String, (base nfkd (kind, scope, id) ++ rest).toList =
        kind.text.toList ++ '_' :: (slug ++ rest).toList := fun rest => by
      simp [hbase]
    cases i with
    | zero => exact ⟨slug.toList, by simp [candidate, Declarative.attr_candidate, hbase]⟩
    | succ i =>
        have hsuffix : (candidate nfkd (kind, scope, id) (i + 1)).1 =
            base nfkd (kind, scope, id) ++ ("_" ++ (i + 2).repr) := String.append_assoc
        rw [hsuffix]
        exact ⟨_, hlong _⟩
  obtain ⟨tail, htail⟩ := hbase
  rw [htail]
  cases kind <;> rfl

/-- The key under which an item gets its id. -/
def key_of : Content → Key
  | .node address => (Kind.n, 0, address.headD "")
  | .group gid => (Kind.g, 0, gid)

/-- The items of the nodes met so far, with what is declared under their keys. -/
def met_items (try_get : String → Option Definition) (opts : Options) (graph : Graph (Nested n))
    (met : List (Node (Nested n))) : List (Content × Label) :=
  (met.map (item try_get opts graph)).eraseDups

/-- What the loop knows of the nodes that it has met. -/
structure Collapsed.Progress (try_get : String → Option Definition) (opts : Options)
    (graph : Graph (Nested n)) (c : Collapsed) (met : List (Node (Nested n))) : Prop where
  items : Resolves c.ids ((met_items try_get opts graph met).map fun it => (key_of it.1, it.2))
    (c.items.map fun it => (it.mid, it.text))
  kinds : ∀ key mid, c.ids.memo.get? key = some mid →
    ['g', '_'].isPrefixOf mid.1.toList = decide (key.1 = .g)
  groups : ∀ gid, (c.group_item.get? gid).isSome ↔
    ∃ node ∈ met, group_of opts.groups graph node = some gid

variable {c : Collapsed} {met : List (Node (Nested n))}

theorem item_of_none {node : Node (Nested n)} (h : group_of opts.groups graph node = none) :
    item try_get opts graph node = (.node [node.id], node_text try_get opts.show_types node) := by
  rw [item, h]

theorem item_of_some {node : Node (Nested n)} {gid : String}
    (h : group_of opts.groups graph node = some gid) : item try_get opts graph node =
      (.group gid, (group_label graph gid).small (node_count (members_of opts graph gid).length)) := by
  rw [item, h]

/-- Only the node itself and its fellow members are drawn as the same item. -/
theorem item_key_inj {a b : Node (Nested n)}
    (h : (item try_get opts graph a).1 = (item try_get opts graph b).1) :
    (group_of opts.groups graph a = none ∧ a.id = b.id) ∨
      ∃ gid, group_of opts.groups graph a = some gid ∧
        group_of opts.groups graph b = some gid := by
  cases ha : group_of opts.groups graph a with
  | none =>
      cases hb : group_of opts.groups graph b with
      | none => simpa [item_of_none ha, item_of_none hb] using h
      | some gid => simp [item_of_none ha, item_of_some hb] at h
  | some gid =>
      cases hb : group_of opts.groups graph b with
      | none => simp [item_of_some ha, item_of_none hb] at h
      | some gid' => simpa [item_of_some ha, item_of_some hb, eq_comm] using h

theorem met_items_concat (node : Node (Nested n)) :
    met_items try_get opts graph (met ++ [node]) =
      if item try_get opts graph node ∈ met.map (item try_get opts graph) then
        met_items try_get opts graph met
      else met_items try_get opts graph met ++ [item try_get opts graph node] := by
  rw [met_items, List.map_append, List.map_singleton]
  exact Groups.eraseDups_append_singleton _ _

variable (nfkd) in
/-- One more item. -/
theorem Collapsed.Progress.items_append (h : c.Progress try_get opts graph met)
    {node : Node (Nested n)}
    (hnew : item try_get opts graph node ∉ met.map (item try_get opts graph)) (it : Item)
    (hmid : it.mid = (alloc nfkd c.ids (key_of (item try_get opts graph node).1)).1)
    (htext : it.text = (item try_get opts graph node).2) :
    Resolves (alloc nfkd c.ids (key_of (item try_get opts graph node).1)).2
      ((met_items try_get opts graph (met ++ [node])).map fun it => (key_of it.1, it.2))
      ((c.items ++ [it]).map fun it => (it.mid, it.text)) := by
  rw [met_items_concat, if_neg hnew, List.map_append, List.map_append, List.map_singleton,
    List.map_singleton, hmid, htext]
  exact (h.items.alloc _).append (get?_alloc _ _) _

theorem Collapsed.Progress.kinds_alloc (h : c.Progress try_get opts graph met) (key : Key) :
    ∀ key' mid, (alloc nfkd c.ids key).2.memo.get? key' = some mid →
      ['g', '_'].isPrefixOf mid.1.toList = decide (key'.1 = .g) := by
  intro key' mid hmid
  rcases Allocator.get?_alloc_cases _ _ hmid with hmid | ⟨rfl, i, rfl⟩
  · exact h.kinds key' mid hmid
  · exact is_group_candidate key i

variable (nfkd) in
theorem Collapsed.Progress.step (h : c.Progress try_get opts graph met)
    (node : Node (Nested n)) (hnode : ∀ m ∈ met, m.id ≠ node.id) :
    (collapsed_step try_get nfkd opts graph c node).Progress try_get opts graph
      (met ++ [node]) := by
  unfold collapsed_step
  cases hgroup : group_of opts.groups graph node with
  | none =>
      have hitem : item try_get opts graph node = _ := item_of_none hgroup
      have hnew : item try_get opts graph node ∉ met.map (item try_get opts graph) := by
        intro hmem
        obtain ⟨m, hm, heq⟩ := List.mem_map.mp hmem
        rcases item_key_inj (congrArg Prod.fst heq.symm) with ⟨-, hid⟩ | ⟨gid, hgid, -⟩
        · exact hnode m hm hid.symm
        · rw [hgroup] at hgid
          cases hgid
      have happend := h.items_append nfkd hnew
      rw [hitem] at happend
      refine ⟨happend _ rfl rfl, h.kinds_alloc _, fun gid => (h.groups gid).trans ?_⟩
      simp [or_and_right, exists_or, hgroup]
  | some gid =>
      have hitem : item try_get opts graph node = _ := item_of_some hgroup
      have hmem : item try_get opts graph node ∈ met.map (item try_get opts graph) ↔
          (c.group_item.get? gid).isSome := by
        rw [h.groups, List.mem_map]
        constructor
        · rintro ⟨m, hm, heq⟩
          rcases item_key_inj (congrArg Prod.fst heq) with ⟨-, hid⟩ | ⟨gid', hgid, hgid'⟩
          · exact absurd hid (hnode m hm)
          · exact ⟨m, hm, hgid.trans (hgid'.symm.trans hgroup)⟩
        · rintro ⟨m, hm, hgid⟩
          exact ⟨m, hm, (item_of_some hgid).trans hitem.symm⟩
      have hmet : ∀ gid', (∃ node' ∈ met ++ [node], group_of opts.groups graph node' = some gid') ↔
          (c.group_item.get? gid').isSome ∨ gid = gid' := by
        intro gid'
        rw [h.groups]
        simp [or_and_right, exists_or, hgroup]
      dsimp only
      -- a group takes one item, made when its first member is met
      cases hfound : c.group_item.get? gid with
      | none =>
          have happend := h.items_append nfkd (by rw [hmem, hfound]; simp)
          rw [hitem] at happend
          refine ⟨happend _ rfl rfl, h.kinds_alloc _, fun gid' => ?_⟩
          have hset : ((c.group_item.set gid c.items.length).get? gid').isSome ↔
              (c.group_item.get? gid').isSome ∨ gid = gid' := by
            rw [Dict.get?_set]
            split <;> simp_all
          exact hset.trans (hmet gid').symm
      | some i =>
          dsimp only
          refine ⟨?_, h.kinds, fun gid' => ?_⟩
          · rw [met_items_concat, if_pos (hmem.mpr (by rw [hfound]; rfl))]
            exact h.items
          · refine Iff.trans ?_ (hmet gid').symm
            refine ⟨.inl, ?_⟩
            rintro (hsome | rfl)
            · exact hsome
            · exact Option.isSome_of_eq_some hfound

theorem Collapsed.Progress.run (h : c.Progress try_get opts graph met)
    (rest : List (Node (Nested n))) (hids : ((met ++ rest).map (·.id)).Nodup) :
    (rest.foldl (collapsed_step try_get nfkd opts graph) c).Progress try_get opts graph
      (met ++ rest) := by
  induction rest generalizing c met with
  | nil => simpa using h
  | cons node rest ih =>
      have hnode : ∀ m ∈ met, m.id ≠ node.id := by
        rw [List.map_append, List.nodup_append] at hids
        intro m hm
        exact hids.2.2 _ (List.mem_map_of_mem hm) _ (by simp)
      rw [List.append_cons] at hids ⊢
      exact ih (h.step nfkd node hnode) hids

theorem collapsed_progress (try_get : String → Option Definition) (nfkd : String → String)
    (opts : Options) (hv : graph.Valid) :
    (collapsed try_get nfkd opts graph).Progress try_get opts graph
      (visible_nodes opts.include_notes graph) := by
  have hstart : ({} : Collapsed).Progress try_get opts graph [] :=
    ⟨rfl, fun _ _ h => by simp at h, fun gid => by simp⟩
  exact hstart.run _ (nodup_visible_ids hv opts.include_notes)

/-! ## What the condensed diagram declares -/

/-- Distinct items have distinct keys. -/
theorem nodup_item_keys (hv : graph.Valid) :
    ((items try_get opts graph).map fun it => key_of it.1).Nodup := by
  refine (Groups.nodup_eraseDups _).map_on fun it hit it' hit' heq => ?_
  obtain ⟨a, ha, rfl⟩ := List.mem_map.mp (List.mem_eraseDups.mp hit)
  obtain ⟨b, hb, rfl⟩ := List.mem_map.mp (List.mem_eraseDups.mp hit')
  have hkeys : (item try_get opts graph a).1 = (item try_get opts graph b).1 := by
    unfold item at heq ⊢
    cases ha' : group_of opts.groups graph a <;> cases hb' : group_of opts.groups graph b <;>
      simp_all [key_of]
  rcases item_key_inj hkeys with ⟨-, hid⟩ | ⟨gid, hga, hgb⟩
  · rw [List.inj_on_of_nodup_map (nodup_visible_ids hv opts.include_notes) ha hb hid]
  · rw [item_of_some hga, item_of_some hgb]

variable (try_get opts) in
/-- The items that are nodes are visible nodes. -/
theorem single_subperm (hv : ValidWithin n graph) :
    ((items try_get opts graph).filterMap fun it => it.1.node?.map (·, it.2)).Subperm
      ((visible try_get opts n graph).filter fun p => shallow p.1) := by
  have hnodup : ((items try_get opts graph).filterMap fun it =>
      it.1.node?.map (·, it.2)).Nodup := by
    refine (Groups.nodup_eraseDups _).filterMap ?_
    rintro ⟨a | gid, text⟩ ⟨a' | gid', text'⟩ p hp hp'
    · cases hp
      cases hp'
      rfl
    · cases hp'
    · cases hp
    · cases hp
  refine hnodup.subperm fun p hp => ?_
  obtain ⟨it, hit, hp⟩ := List.mem_filterMap.mp hp
  obtain ⟨node, hnode, rfl⟩ := List.mem_map.mp (List.mem_eraseDups.mp hit)
  rw [visible_shallow]
  refine List.mem_append_left _ ((own_nodes_perm try_get opts hv.valid).mem_iff.mpr ?_)
  cases hgroup : group_of opts.groups graph node with
  | none =>
      rw [item_of_none hgroup] at hp
      obtain rfl := Option.some.inj hp
      exact List.mem_map_of_mem hnode
  | some gid => simp [item_of_some hgroup, Content.node?] at hp

/-- The nodes that can be drawn are the visible ones inside one other node at most. -/
theorem renderable_count_eq (try_get : String → Option Definition) (opts : Options)
    (hv : ValidWithin n graph) : renderable_count opts.include_notes graph =
      ((visible try_get opts n graph).filter fun p => shallow p.1).length := by
  have hinner : ∀ node ∈ graph.nodes.values.filter (is_visible opts.include_notes),
      inner_count opts.include_notes node = ((subgraph_of node).toList.flatMap fun sub =>
        (own_nodes try_get opts sub.2).map fun p => (node.id :: p.1, p.2)).length := by
    intro node hnode
    have hget := ((mem_visible_nodes hv.valid).mp
      ((perm_visible_nodes hv.valid opts.include_notes).mem_iff.mpr hnode)).1
    rw [inner_count]
    cases hsub : subgraph_of node with
    | none => rfl
    | some sub =>
        have hperm := own_nodes_perm try_get opts (hv.block hget hsub)
        simp [hperm.length_eq]
  rw [renderable_count, List.map_congr_left fun node hnode => by rw [hinner node hnode],
    visible_shallow, List.length_append, List.length_flatMap, List.sum_map_add]
  congr 1
  simp [own_nodes]

theorem Resolves.take {ids : Allocator Key Id} {made : List (Key × Label)}
    {ds : List (Id × Label)} (h : Resolves ids made ds) (k : Nat) :
    Resolves ids (made.take k) (ds.take k) := by
  rw [Resolves, List.map_take, List.map_take]
  exact congrArg (List.take k) h

theorem declarations_pair_lines (items : List Item) (pairs : List (Nat × Nat)) :
    declarations (pairs.filterMap (pair_line items)) = [] := by
  refine List.filterMap_eq_nil_iff.mpr fun line hline => ?_
  obtain ⟨p, -, hp⟩ := List.mem_filterMap.mp hline
  unfold pair_line at hp
  split at hp
  · cases hp
    rfl
  · cases hp

/-- The items that the limit leaves room for. -/
abbrev drawn_items (try_get : String → Option Definition) (opts : Options)
    (graph : Graph (Nested n)) : List (Content × Label) :=
  (items try_get opts graph).take opts.max_nodes.toNat

theorem resolves_kept (hv : graph.Valid) : Resolves (collapsed try_get nfkd opts graph).ids
    ((drawn_items try_get opts graph).map fun it => (key_of it.1, it.2))
    ((kept try_get nfkd opts graph).map fun it => (it.mid, it.text)) := by
  rw [kept, List.map_take, List.map_take]
  exact (collapsed_progress try_get nfkd opts hv).items.take _

theorem kept_eq (hv : graph.Valid) :
    (kept try_get nfkd opts graph).map (fun it => (it.mid, it.text)) =
      (drawn_items try_get opts graph).map fun it =>
        (mid_of (collapsed try_get nfkd opts graph).ids (key_of it.1), it.2) := by
  rw [(resolves_kept hv).eq_map, List.map_map]
  rfl

theorem declarations_collapsed {left : Int} {total : Nat} {limit : Int} :
    declarations (.truncated left total limit :: render_collapsed try_get nfkd opts graph) =
      (kept try_get nfkd opts graph).map fun it => (it.mid, it.text) := by
  have hitems : declarations ((kept try_get nfkd opts graph).map fun it =>
      Line.node 1 it.mid it.text) =
      (kept try_get nfkd opts graph).map fun it => (it.mid, it.text) := by
    rw [declarations, List.filterMap_map]
    exact congrFun List.filterMap_eq_map _
  refine (List.filterMap_cons_none rfl).trans ?_
  change declarations _ = _
  rw [render_collapsed, declarations_append, declarations_append, hitems,
    declarations_pair_lines, (class_lines_plain _ _).1, List.append_nil, List.append_nil]

/-- What is kept is a node or a group by its key, which the prefix of its id repeats. -/
theorem length_single (hv : graph.Valid) :
    ((kept try_get nfkd opts graph).filter (!·.is_group)).length =
      ((drawn_items try_get opts graph).filter (·.1.node?.isSome)).length := by
  have hsame (it : Content × Label) (hit : it ∈ drawn_items try_get opts graph) :
      (! ['g', '_'].isPrefixOf
        (mid_of (collapsed try_get nfkd opts graph).ids (key_of it.1)).1.toList) =
          it.1.node?.isSome := by
    have hkept : Resolves (collapsed try_get nfkd opts graph).ids _ _ := resolves_kept hv
    have hmid := hkept.get?_eq
      (List.mem_map_of_mem (f := fun it : Content × Label => (key_of it.1, it.2)) hit)
    rw [(collapsed_progress try_get nfkd opts hv).kinds _ _ hmid]
    cases it.1 <;> rfl
  calc ((kept try_get nfkd opts graph).filter (!·.is_group)).length
      = (((kept try_get nfkd opts graph).map fun it => (it.mid, it.text)).filter
          fun d => ! ['g', '_'].isPrefixOf d.1.1.toList).length := by
        rw [List.filter_map, List.length_map, Function.comp_def]
        rfl
    _ = ((drawn_items try_get opts graph).filter fun it => ! ['g', '_'].isPrefixOf
          (mid_of (collapsed try_get nfkd opts graph).ids (key_of it.1)).1.toList).length := by
        rw [kept_eq hv, List.filter_map, List.length_map, Function.comp_def]
    _ = ((drawn_items try_get opts graph).filter (·.1.node?.isSome)).length := by
        rw [List.filter_congr hsame]

variable (try_get nfkd) in
/-- The condensed diagram. -/
theorem render_collapsed_condensed (hv : ValidWithin n graph)
    (hlimit : 1 ≤ opts.max_nodes) :
    Condensed (.truncated
        (omitted try_get nfkd opts graph (renderable_count opts.include_notes graph))
        (renderable_count opts.include_notes graph) opts.max_nodes ::
          render_collapsed try_get nfkd opts graph) (items try_get opts graph)
      ((visible try_get opts n graph).filter fun p => shallow p.1) opts.max_nodes := by
  have hkeys : (((drawn_items try_get opts graph).map fun it =>
      (key_of it.1, it.2)).map Prod.fst).Nodup := by
    rw [List.map_map]
    exact (nodup_item_keys hv.valid).sublist ((List.take_sublist _ _).map _)
  have hcount := renderable_count_eq try_get opts hv
  refine ⟨⟨fun k => mid_of (collapsed try_get nfkd opts graph).ids (key_of k),
    omitted try_get nfkd opts graph (renderable_count opts.include_notes graph),
    declarations_collapsed.trans (kept_eq hv.valid), ?_, ?_, ?_⟩,
    single_subperm try_get opts hv, ?_, ?_⟩
  · rw [← hcount]
    exact List.mem_cons_self
  · change (((drawn_items try_get opts graph).filter (·.1.node?.isSome)).length : Int) + _ = _
    rw [omitted, length_single hv.valid, ← hcount]
    omega
  · -- the nodes drawn one by one are among those there are
    have hle : ((drawn_items try_get opts graph).filter (·.1.node?.isSome)).length ≤
        ((items try_get opts graph).filterMap fun it => it.1.node?.map (·, it.2)).length := by
      rw [List.length_filterMap_eq_countP, ← List.countP_eq_length_filter]
      refine ((List.take_sublist _ _).countP_le).trans (List.countP_mono_left fun it _ hleft => ?_)
      cases hit : it.1 <;> simp_all
    have hall := (single_subperm try_get opts hv).length_le
    rw [← hcount] at hall
    rw [omitted, length_single hv.valid]
    omega
  · rw [declarations_collapsed]
    exact (resolves_kept hv.valid).nodup hkeys
  · rw [declarations_collapsed, List.length_map, kept, List.length_take]
    omega

/-! ## Every diagram -/

/-- Each of the nodes is declared once, no two under one id. -/
def DeclaresEach (lines : List Line) (nodes : List (Address × Label)) : Prop :=
  ∃ name : Address → Id, (nodes.map fun p => name p.1).Nodup ∧
    ∀ p ∈ nodes, ((declarations lines).map Prod.fst).count (name p.1) = 1

theorem Faithful.declares_each {lines : List Line} {nodes : List (Address × Label)}
    {groups : List (String × Label)} {edges : List (Link Address)}
    (h : Faithful lines groups nodes edges) : DeclaresEach lines nodes := by
  obtain ⟨name, group_id, hperm, -⟩ := h.shown
  have hids := hperm.map Prod.fst
  rw [List.map_append, List.map_map, List.map_map] at hids
  refine ⟨name, (List.nodup_append.mp (hids.nodup_iff.mp h.distinct)).2.1, fun p hp => ?_⟩
  refine List.count_eq_one_of_mem h.distinct (hids.mem_iff.mpr ?_)
  exact List.mem_append_right _ (List.mem_map.mpr ⟨p, hp, rfl⟩)

theorem Faithful.header {lines : List Line} {nodes : List (Address × Label)}
    {groups : List (String × Label)} {edges : List (Link Address)}
    (h : Faithful lines groups nodes edges)
    (direction : { d : String // d = "LR" ∨ d = "TB" }) :
    Faithful (.header direction :: lines) groups nodes edges := by
  have hdeclarations : declarations (.header direction :: lines) = declarations lines :=
    List.filterMap_cons_none rfl
  have hlinks : links (.header direction :: lines) = links lines := List.filterMap_cons_none rfl
  refine ⟨?_, ?_, ?_⟩
  · rw [hdeclarations, hlinks]
    exact h.shown
  · rw [hdeclarations]
    exact h.distinct
  · rw [hdeclarations, hlinks]
    exact h.ends

/-- More nodes than declarations. -/
theorem not_declares_each {lines : List Line} {nodes : List (Address × Label)}
    (h : (declarations lines).length < nodes.length) : ¬ DeclaresEach lines nodes := by
  rintro ⟨name, hnodup, hcount⟩
  have hsub : (nodes.map fun p => name p.1) ⊆ (declarations lines).map Prod.fst := by
    intro mid hmid
    obtain ⟨p, hp, rfl⟩ := List.mem_map.mp hmid
    exact List.count_pos_iff.mp (by rw [hcount p hp]; exact Nat.one_pos)
  have hle := (hnodup.subperm hsub).length_le
  rw [List.length_map, List.length_map] at hle
  omega

/-- A diagram is made of the lines it looks like, whatever the texts in it: each label is
between the quotes of its line, and no line is taken for a directive. In full it declares every
visible node that is inside one other node at most, once and under its own id, and draws every
edge between two of them. With too many of these it draws as many things as the limit allows,
nodes and groups, and the nodes drawn and those it calls omitted are all of them. -/
theorem mermaid_law (try_get : String → Option Definition) (nfkd : String → String)
    (opts : Options) (hv : ValidWithin n graph)
    (hdirection : opts.direction = "LR" ∨ opts.direction = "TB") (hlimit : 1 ≤ opts.max_nodes) :
    ∃ lines, to_mermaid try_get nfkd opts graph = .ok (document lines) ∧
      (document lines).toList.splitOn '\n' = lines.map (·.text.toList) ++ [[]] ∧
      (∀ line ∈ lines, Written line.text.toList (if line.quoted then 2 else 0)
        (if line.comment then 2 else 0)) ∧
      (∀ text, Safe (mermaid_label text).1.toList) ∧
      let nodes := (visible try_get opts n graph).filter fun p => shallow p.1
      let edges := (dataflow opts n graph).filter fun l => shallow l.1
      (nodes.length ≤ opts.max_nodes → DeclaresEach lines nodes ∧
        Faithful lines (shown_groups opts graph) nodes edges) ∧
      (opts.max_nodes < nodes.length →
        Condensed lines (items try_get opts graph) nodes opts.max_nodes) := by
  have hcount := renderable_count_eq try_get opts hv
  refine ⟨.header ⟨opts.direction, hdirection⟩ :: body try_get nfkd opts graph, ?_,
    splitOn_document (List.cons_ne_nil _ _), fun line _ => line.written,
    fun text => (mermaid_label text).2, fun hfew => ?_, fun hmany => ?_⟩
  · rw [to_mermaid, dif_pos hdirection, if_neg (by omega)]
  · rw [← hcount] at hfew
    rw [body, if_neg (by omega)]
    have hfaithful := (render_full_faithful try_get nfkd opts hv).header
      ⟨opts.direction, hdirection⟩
    exact ⟨hfaithful.declares_each, hfaithful⟩
  · rw [← hcount] at hmany
    rw [body, if_pos hmany]
    obtain ⟨⟨name, omitted, hdrawn, hnote, htotal, hpos⟩, hsingle, hdistinct, hbounded⟩ :=
      render_collapsed_condensed try_get nfkd hv hlimit
    exact ⟨⟨name, omitted, hdrawn, List.mem_cons_of_mem _ hnote, htotal, hpos⟩, hsingle, hdistinct,
      hbounded⟩

/-! ## Modules in modules -/

/-- A module with a module with a layer in it. -/
def relu_module : Graph (Nested 0) where
  nodes := Dict.ofList [("relu", { id := "relu", type := "nn.relu" })]

@[inherit_doc relu_module]
def inner_module : Graph (Nested 1) where
  nodes := Dict.ofList [("inner",
    { id := "inner", type := "nn.module", subgraph := some relu_module })]

@[inherit_doc relu_module]
def outer_module : Graph (Nested 2) where
  nodes := Dict.ofList [("outer",
    { id := "outer", type := "nn.module", subgraph := some inner_module })]

theorem outer_module_valid : ValidWithin 2 outer_module := by
  refine ⟨Graph.validate_structure_eq_ok.mp rfl, fun id node sub hnode hsub => ?_⟩
  obtain ⟨rfl, rfl⟩ := Prod.mk.inj (List.mem_singleton.mp ((Dict.mem_entries_iff _).mpr hnode))
  cases hsub
  refine ⟨Graph.validate_structure_eq_ok.mp rfl, fun id node sub hnode hsub => ?_⟩
  obtain ⟨rfl, rfl⟩ := Prod.mk.inj (List.mem_singleton.mp ((Dict.mem_entries_iff _).mpr hnode))
  cases hsub
  exact Graph.validate_structure_eq_ok.mp rfl

theorem mermaid_law_outer_module : ∃ lines,
    to_mermaid (fun _ => none) id {} outer_module = .ok (document lines) ∧
      DeclaresEach lines
        ((visible (fun _ => none) {} 2 outer_module).filter fun p => shallow p.1) := by
  obtain ⟨lines, hrender, -, -, -, hfull, -⟩ := mermaid_law (fun _ => none) id {} outer_module_valid
    (.inl rfl) (by decide)
  have hfew : renderable_count false outer_module ≤ 150 := by decide
  rw [renderable_count_eq (fun _ => none) {} outer_module_valid] at hfew
  exact ⟨lines, hrender, (hfull (Int.ofNat_le.mpr hfew)).1⟩

/-- Two layers in a group. -/
def grouped_layers : Graph (Nested 0) where
  nodes := Dict.ofList [("g", { id := "g", type := "layout.group" }),
    ("a", { id := "a", type := "nn.relu", group_id := some "g" }),
    ("b", { id := "b", type := "nn.relu", group_id := some "g" })]

/-- The layer two modules deep is visible and not declared; and where two nodes are drawn as one
group, the thing drawn and the nodes omitted are more than there are. -/
theorem not_every_visible_declared :
    (ValidWithin 2 outer_module ∧ ∃ lines,
      to_mermaid (fun _ => none) id {} outer_module = .ok (document lines) ∧
        ¬ DeclaresEach lines (visible (fun _ => none) {} 2 outer_module)) ∧
    (ValidWithin 0 grouped_layers ∧ ∃ lines, ∃ omitted : Int,
      to_mermaid (fun _ => none) id { max_nodes := 1 } grouped_layers = .ok (document lines) ∧
        .truncated omitted (renderable_count false grouped_layers) 1 ∈ lines ∧
        (declarations lines).length + omitted ≠ renderable_count false grouped_layers) := by
  have hvisible : (visible (fun _ => none) {} 2 outer_module).length = 3 := by decide +kernel
  have hdeclared : (declarations (.header ⟨"LR", .inl rfl⟩ ::
      body (fun _ => none) id {} outer_module)).length = 2 := by decide +kernel
  refine ⟨⟨outer_module_valid, _, rfl, not_declares_each (by rw [hvisible, hdeclared]; decide)⟩,
    Graph.validate_structure_eq_ok.mp rfl, _,
    omitted (fun _ => none) id { max_nodes := 1 } grouped_layers
      (renderable_count false grouped_layers), rfl, ?_, by decide +kernel⟩
  refine List.mem_cons_of_mem _ ?_
  rw [body, if_pos (by decide +kernel)]
  exact List.mem_cons_self

end EmergentFlow.Mermaid
