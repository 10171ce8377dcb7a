import EmergentFlow.Validity.Flatten
import EmergentFlow.Validity.Leakage

/-!
# Validity — Transparency

Whether a rule sees through composites: it should report exactly the leaks
of the flattened graph. The merged traversal is an over-approximation at
top level, since a path of the flattened graph between top-level nodes is
a path of top-level edges (`feeds_of_flat_path`), and it is blind inside
composites. So the rule is right exactly when no leak starts or ends
inside a composite, no two top-level nodes are connected through shared
ids only, and none by crossing a composite that does not connect them
(`fit_before_split_transparent_iff`).
-/

namespace EmergentFlow

variable {n : Nat} {g : Graph (Nested n)} {rule : BeforeSplitRule}

/-! ## Leaks -/

/-- The node at this address has one of these types. -/
def FlatType (n : Nat) (g : Graph (Nested n)) (a : Address) (types : List String) : Prop :=
  ∃ type, (a, type) ∈ flat_nodes n g ∧ type ∈ types

/-- A suspect of the flattened graph with a path to a split. -/
structure Leak (rule : BeforeSplitRule) (n : Nat) (g : Graph (Nested n)) (a b : Address) :
    Prop where
  suspect : FlatType n g a rule.suspects
  split : FlatType n g b SPLIT_NODES
  path : Relation.TransGen (FlatStep n g) a b

/-- The rule reports exactly the leaks of the flattened graph. -/
def SeesThrough (rule : BeforeSplitRule) (n : Nat) (g : Graph (Nested n)) : Prop :=
  ∀ a b, Leak rule n g a b ↔ ∃ t s, a = [t] ∧ b = [s] ∧ rule.Reports g t s

/-- A leak starts or ends inside a composite. -/
def HiddenLeak (rule : BeforeSplitRule) (n : Nat) (g : Graph (Nested n)) : Prop :=
  ∃ a b, Leak rule n g a b ∧ (1 < a.length ∨ 1 < b.length)

/-- A suspect and a split that the edges of all scopes connect, merged by
node id, but the edges of the graph alone do not. -/
def ConnectedBySharedIds (rule : BeforeSplitRule) (n : Nat) (g : Graph (Nested n)) : Prop :=
  ∃ t s, g.HasType t rule.suspects ∧ g.HasType s SPLIT_NODES ∧
    Relation.TransGen (Joined n g) t s ∧ ¬ Relation.TransGen g.Feeds t s

/-- A suspect and a split that the edges of the graph connect, crossing
composites as if they were plain nodes, but the flattened graph does not. -/
def ConnectedByCrossing (rule : BeforeSplitRule) (n : Nat) (g : Graph (Nested n)) : Prop :=
  ∃ t s, g.HasType t rule.suspects ∧ g.HasType s SPLIT_NODES ∧
    Relation.TransGen g.Feeds t s ∧ ¬ Relation.TransGen (FlatStep n g) [t] [s]

/-! ## Addresses -/

theorem Graph.mem_inside_composites {Sub α β : Type} {g : Graph Sub} {items : Sub → List α}
    {address : String → α → β} {b : β} (h : b ∈ g.inside_composites items address) :
    ∃ e ∈ g.nodes.entries, ∃ sub a, e.2.composite = some sub ∧ a ∈ items sub ∧
      b = address e.1 a := by
  obtain ⟨e, he, hmem⟩ := List.mem_flatMap.mp h
  cases hcomposite : e.2.composite with
  | none =>
      rw [hcomposite] at hmem
      cases hmem
  | some sub =>
      rw [hcomposite] at hmem
      obtain ⟨a, ha, rfl⟩ := List.mem_map.mp hmem
      exact ⟨e, he, sub, a, hcomposite, ha, rfl⟩

/-- No address is empty. -/
theorem flat_nodes_ne_nil {a : Address} {type : String} (h : (a, type) ∈ flat_nodes n g) :
    a ≠ [] := by
  rw [flat_nodes.eq_def] at h
  rcases List.mem_append.mp h with h | h
  · obtain ⟨e, -, heq⟩ := List.mem_map.mp h
    cases heq
    exact List.cons_ne_nil _ _
  · cases n with
    | zero => cases h
    | succ n =>
        obtain ⟨e, -, sub, p, -, -, heq⟩ := Graph.mem_inside_composites h
        cases heq
        exact List.cons_ne_nil _ _

/-- The nodes of the flattened graph at top level. -/
theorem flat_node_top {t type : String} : ([t], type) ∈ flat_nodes n g ↔
    ∃ node, g.nodes.get? t = some node ∧ node.type = type ∧ type ≠ COMPOSITE_NODE_TYPE := by
  rw [flat_nodes.eq_def, List.mem_append]
  constructor
  · rintro (h | h)
    · obtain ⟨e, hmem, heq⟩ := List.mem_map.mp h
      cases heq
      obtain ⟨hmem, htype⟩ := List.mem_filter.mp hmem
      exact ⟨e.2, (Dict.mem_entries_iff _).mp hmem, rfl, of_decide_eq_true htype⟩
    · cases n with
      | zero => cases h
      | succ n =>
          obtain ⟨e, -, sub, ⟨a, type'⟩, -, hmem, heq⟩ := Graph.mem_inside_composites h
          cases heq
          exact absurd rfl (flat_nodes_ne_nil hmem)
  · rintro ⟨node, hnode, rfl, htype⟩
    refine .inl (List.mem_map.mpr ⟨(t, node), List.mem_filter.mpr ⟨?_, ?_⟩, rfl⟩)
    · exact (Dict.mem_entries_iff _).mpr hnode
    · exact decide_eq_true htype

theorem flat_type_top (hv : g.Valid) {t : String} {types : List String}
    (htypes : COMPOSITE_NODE_TYPE ∉ types) : FlatType n g [t] types ↔ g.HasType t types := by
  constructor
  · rintro ⟨type, hmem, htype⟩
    obtain ⟨node, hnode, rfl, -⟩ := flat_node_top.mp hmem
    exact ⟨node, (Dict.mem_values_iff _).mpr ⟨t, hnode⟩, hv.node_id hnode, htype⟩
  · rintro ⟨node, hmem, rfl, htype⟩
    obtain ⟨key, hnode⟩ := (Dict.mem_values_iff _).mp hmem
    refine ⟨node.type, flat_node_top.mpr ⟨node, hv.node_id hnode ▸ hnode, rfl, ?_⟩, htype⟩
    rintro heq
    exact htypes (heq ▸ htype)

/-! ## Paths -/

theorem Graph.resolve_end_head {Sub : Type} {inside : Sub → PortRef → Option Address}
    {boundary : Sub → List PortRef} {ports : Node Sub → List Port} {g : Graph Sub} {r : PortRef}
    {a : Address} (h : g.resolve_end_with inside boundary ports r = some a) :
    ∃ rest, a = r.node_id :: rest := by
  obtain ⟨node, -, h⟩ := Option.bind_eq_some_iff.mp h
  split at h
  · obtain ⟨sub, -, h⟩ := Option.bind_eq_some_iff.mp h
    obtain ⟨port, -, h⟩ := Option.bind_eq_some_iff.mp h
    obtain ⟨rest, -, rfl⟩ := Option.map_eq_some_iff.mp h
    exact ⟨rest, rfl⟩
  · cases h
    exact ⟨[], rfl⟩

/-- An edge of the flattened graph stays inside one node of the graph, or
follows an edge of the graph. -/
theorem FlatStep.outermost {a b : Address} (h : FlatStep n g a b) :
    ∃ x y rest rest', a = x :: rest ∧ b = y :: rest' ∧ (x = y ∨ g.Feeds x y) := by
  have hedge : (∃ e ∈ g.edges.values, ∃ rest rest', a = e.source.node_id :: rest ∧
      b = e.target.node_id :: rest') → ∃ x y rest rest', a = x :: rest ∧ b = y :: rest' ∧
        (x = y ∨ g.Feeds x y) := by
    rintro ⟨e, hmem, rest, rest', rfl, rfl⟩
    obtain ⟨id, he⟩ := (Dict.mem_values_iff _).mp hmem
    exact ⟨_, _, rest, rest', rfl, rfl, .inr (Graph.feeds_iff.mpr ⟨id, e, he, rfl, rfl⟩)⟩
  rw [FlatStep, flat_edges.eq_def] at h
  rcases List.mem_append.mp h with h | h
  · apply hedge
    obtain ⟨e, hmem, h⟩ := List.mem_filterMap.mp h
    obtain ⟨a', hsource, h⟩ := Option.bind_eq_some_iff.mp h
    obtain ⟨b', htarget, heq⟩ := Option.map_eq_some_iff.mp h
    cases heq
    obtain ⟨rest, hrest⟩ : ∃ rest, a = e.source.node_id :: rest := by
      cases n <;> exact Graph.resolve_end_head hsource
    obtain ⟨rest', hrest'⟩ : ∃ rest, b = e.target.node_id :: rest := by
      cases n <;> exact Graph.resolve_end_head htarget
    exact ⟨e, hmem, rest, rest', hrest, hrest'⟩
  · cases n with
    | zero => cases h
    | succ n =>
        obtain ⟨e, -, sub, p, -, -, heq⟩ := Graph.mem_inside_composites h
        cases heq
        exact ⟨e.1, e.1, p.1, p.2, rfl, rfl, .inl rfl⟩

/-- A path of the flattened graph follows edges of the graph. -/
theorem feeds_of_flat_path {a b : Address} (h : Relation.TransGen (FlatStep n g) a b) :
    ∃ x y rest rest', a = x :: rest ∧ b = y :: rest' ∧ Relation.ReflTransGen g.Feeds x y := by
  induction h with
  | single hstep =>
      obtain ⟨x, y, rest, rest', rfl, rfl, rfl | hfeeds⟩ := hstep.outermost
      · exact ⟨x, x, rest, rest', rfl, rfl, .refl⟩
      · exact ⟨x, y, rest, rest', rfl, rfl, .single hfeeds⟩
  | tail _ hstep ih =>
      obtain ⟨x, y, rest, rest', rfl, rfl, hpath⟩ := ih
      obtain ⟨y', z, rest'', rest''', heq, rfl, hlast⟩ := hstep.outermost
      cases heq
      rcases hlast with rfl | hfeeds
      · exact ⟨x, y, rest, rest''', rfl, rfl, hpath⟩
      · exact ⟨x, z, rest, rest''', rfl, rfl, hpath.tail hfeeds⟩

/-- The edges of the graph are among the merged edges. -/
theorem joined_of_feeds {a b : String} (h : g.Feeds a b) : Joined n g a b := by
  obtain ⟨id, e, he, hsource, htarget⟩ := Graph.feeds_iff.mp h
  exact ⟨e, mem_all_edges_of_mem ((Dict.mem_values_iff _).mpr ⟨id, he⟩), hsource, htarget⟩

theorem joined_path_of_feeds_path {a b : String} (h : Relation.TransGen g.Feeds a b) :
    Relation.TransGen (Joined n g) a b :=
  Relation.TransGen.mono (fun _ _ => joined_of_feeds) _ _ h

/-! ## The law of the rules -/

/-- What a rule suspects is neither a split nor a composite. -/
structure BeforeSplitRule.Proper (rule : BeforeSplitRule) : Prop where
  no_split : ∀ type ∈ rule.suspects, type ∉ SPLIT_NODES
  no_composite : COMPOSITE_NODE_TYPE ∉ rule.suspects

/-- A suspect is no split. -/
theorem BeforeSplitRule.Proper.ne (hrule : rule.Proper) (hv : g.Valid) {t s : String}
    (ht : g.HasType t rule.suspects) (hs : g.HasType s SPLIT_NODES) : t ≠ s := by
  rintro rfl
  obtain ⟨node, hmem, hid, htype⟩ := ht
  obtain ⟨node', hmem', hid', htype'⟩ := hs
  obtain ⟨key, hnode⟩ := (Dict.mem_values_iff _).mp hmem
  obtain ⟨key', hnode'⟩ := (Dict.mem_values_iff _).mp hmem'
  have hkey : key = key' := by
    rw [← hv.node_id hnode, ← hv.node_id hnode', hid, hid']
  subst hkey
  obtain rfl := Option.some.inj (hnode.symm.trans hnode')
  exact hrule.no_split _ htype htype'

/-- Between a suspect and a split of the graph, a path of the flattened
graph is a path of the graph. -/
theorem feeds_path_of_flat_path {t s : String} (hne : t ≠ s)
    (h : Relation.TransGen (FlatStep n g) [t] [s]) : Relation.TransGen g.Feeds t s := by
  obtain ⟨x, y, rest, rest', hx, hy, hpath⟩ := feeds_of_flat_path h
  cases hx
  cases hy
  exact (Relation.reflTransGen_iff_eq_or_transGen.mp hpath).resolve_left (Ne.symm hne)

theorem BeforeSplitRule.transparent_iff (hrule : rule.Proper) (hv : g.Valid) :
    SeesThrough rule n g ↔
      ¬ HiddenLeak rule n g ∧ ¬ ConnectedBySharedIds rule n g ∧ ¬ ConnectedByCrossing rule n g := by
  have hsplit : COMPOSITE_NODE_TYPE ∉ SPLIT_NODES := by decide
  have hleak : ∀ {t s}, Leak rule n g [t] [s] ↔ g.HasType t rule.suspects ∧
      g.HasType s SPLIT_NODES ∧ Relation.TransGen (FlatStep n g) [t] [s] := by
    intro t s
    rw [← flat_type_top hv hrule.no_composite, ← flat_type_top hv hsplit]
    exact ⟨fun h => ⟨h.suspect, h.split, h.path⟩, fun h => ⟨h.1, h.2.1, h.2.2⟩⟩
  constructor
  · intro h
    have hreported : ∀ {t s}, g.HasType t rule.suspects → g.HasType s SPLIT_NODES →
        Relation.TransGen (Joined n g) t s → Relation.TransGen (FlatStep n g) [t] [s] := by
      intro t s ht hs hpath
      have hreports := BeforeSplitRule.reports_iff.mpr ⟨ht, hs, reaches_iff.mpr hpath⟩
      exact ((h [t] [s]).mpr ⟨t, s, rfl, rfl, hreports⟩).path
    refine ⟨?_, ?_, ?_⟩
    · rintro ⟨a, b, hleak, hlong⟩
      obtain ⟨t, s, rfl, rfl, -⟩ := (h a b).mp hleak
      simp at hlong
    · rintro ⟨t, s, ht, hs, hjoined, hnot⟩
      exact hnot (feeds_path_of_flat_path (hrule.ne hv ht hs) (hreported ht hs hjoined))
    · rintro ⟨t, s, ht, hs, hfeeds, hnot⟩
      exact hnot (hreported ht hs (joined_path_of_feeds_path hfeeds))
  · rintro ⟨hhidden, hshared, hcrossing⟩ a b
    constructor
    · intro h
      have hshort : ¬ (1 < a.length ∨ 1 < b.length) := fun hlong => hhidden ⟨a, b, h, hlong⟩
      obtain ⟨type, hmem, -⟩ := h.suspect
      obtain ⟨type', hmem', -⟩ := h.split
      obtain ⟨t, rfl⟩ : ∃ t, a = [t] := by
        rw [← List.length_eq_one_iff]
        have := List.length_pos_iff.mpr (flat_nodes_ne_nil hmem)
        omega
      obtain ⟨s, rfl⟩ : ∃ s, b = [s] := by
        rw [← List.length_eq_one_iff]
        have := List.length_pos_iff.mpr (flat_nodes_ne_nil hmem')
        omega
      obtain ⟨ht, hs, hpath⟩ := hleak.mp h
      have hfeeds := feeds_path_of_flat_path (hrule.ne hv ht hs) hpath
      exact ⟨t, s, rfl, rfl, BeforeSplitRule.reports_iff.mpr
        ⟨ht, hs, reaches_iff.mpr (joined_path_of_feeds_path hfeeds)⟩⟩
    · rintro ⟨t, s, rfl, rfl, hreports⟩
      obtain ⟨ht, hs, hreaches⟩ := BeforeSplitRule.reports_iff.mp hreports
      have hfeeds : Relation.TransGen g.Feeds t s := by
        by_contra hnot
        exact hshared ⟨t, s, ht, hs, reaches_iff.mp hreaches, hnot⟩
      refine hleak.mpr ⟨ht, hs, ?_⟩
      by_contra hnot
      exact hcrossing ⟨t, s, ht, hs, hfeeds, hnot⟩

theorem fit_before_split_proper (repr : String → String) : (FitBeforeSplit repr).Proper where
  no_split := show ∀ type ∈ FITTING_TRANSFORMS, type ∉ SPLIT_NODES by decide
  no_composite := show COMPOSITE_NODE_TYPE ∉ FITTING_TRANSFORMS by decide

/-- Where a rule is right, what it reports is a matter of the flattened
graph alone. -/
theorem reports_of_same_leaks {m : Nat} {g' : Graph (Nested m)} (h : SeesThrough rule n g)
    (h' : SeesThrough rule m g') (hsame : ∀ a b, Leak rule n g a b ↔ Leak rule m g' a b)
    (t s : String) : rule.Reports g t s ↔ rule.Reports g' t s := by
  have hone : ∀ {k : Nat} {g : Graph (Nested k)}, SeesThrough rule k g →
      (rule.Reports g t s ↔ Leak rule k g [t] [s]) := by
    intro k g h
    refine ⟨fun hreports => (h [t] [s]).mpr ⟨t, s, rfl, rfl, hreports⟩, fun hleak => ?_⟩
    obtain ⟨t', s', ht, hs, hreports⟩ := (h [t] [s]).mp hleak
    cases ht
    cases hs
    exact hreports
  rw [hone h, hone h', hsame]

/-- The fit-before-split rule sees through composites exactly where no leak
hides inside one and no two nodes are connected in appearance only. Between
graphs with the same leaks it sees through, its reports do not change. -/
theorem fit_before_split_transparent_iff (repr : String → String) (hv : g.Valid) :
    (SeesThrough (FitBeforeSplit repr) n g ↔ ¬ HiddenLeak (FitBeforeSplit repr) n g ∧
      ¬ ConnectedBySharedIds (FitBeforeSplit repr) n g ∧
      ¬ ConnectedByCrossing (FitBeforeSplit repr) n g) ∧
    (SeesThrough (FitBeforeSplit repr) n g → ∀ (m : Nat) (g' : Graph (Nested m)),
      SeesThrough (FitBeforeSplit repr) m g' →
        (∀ a b, Leak (FitBeforeSplit repr) n g a b ↔ Leak (FitBeforeSplit repr) m g' a b) →
          ∀ t s, (FitBeforeSplit repr).Reports g t s ↔ (FitBeforeSplit repr).Reports g' t s) :=
  ⟨BeforeSplitRule.transparent_iff (fit_before_split_proper repr) hv,
    fun h _ _ h' hsame => reports_of_same_leaks h h' hsame⟩

/-! ## Graphs without composites -/

/-- No node owns a subgraph or is a composite. -/
def Graph.WithoutSubgraphs {Sub : Type} (g : Graph Sub) : Prop :=
  ∀ e ∈ g.nodes.entries, e.2.type ≠ COMPOSITE_NODE_TYPE ∧ e.2.subgraph = none

/-- There the rules are right. -/
theorem Graph.WithoutSubgraphs.no_defect (h : g.WithoutSubgraphs) (hv : g.Valid) :
    ¬ HiddenLeak rule n g ∧ ¬ ConnectedBySharedIds rule n g ∧ ¬ ConnectedByCrossing rule n g := by
  have hshort : ∀ {a type}, (a, type) ∈ flat_nodes n g → a.length = 1 := by
    intro a type hmem
    rw [flat_nodes.eq_def] at hmem
    rcases List.mem_append.mp hmem with hmem | hmem
    · obtain ⟨e, -, heq⟩ := List.mem_map.mp hmem
      cases heq
      rfl
    · cases n with
      | zero => cases hmem
      | succ n =>
          obtain ⟨e, he, sub, p, hcomposite, -, -⟩ := Graph.mem_inside_composites hmem
          rw [Node.composite, if_neg (h e he).1] at hcomposite
          cases hcomposite
  have hjoined : ∀ {a b}, Joined n g a b → g.Feeds a b := by
    rintro a b ⟨e, hmem, hsource, htarget⟩
    have hedges : e ∈ g.edges.values := by
      have hnone : ∀ node ∈ g.nodes.values, node.subgraph = none := by
        intro node hnode
        obtain ⟨key, hget⟩ := (Dict.mem_values_iff _).mp hnode
        exact (h (key, node) ((Dict.mem_entries_iff _).mpr hget)).2
      have hwith : ∀ (sub_edges : Nested n → List Edge), e ∈ g.all_edges_with sub_edges →
          e ∈ g.edges.values := by
        intro sub_edges hmem
        rcases List.mem_append.mp hmem with hmem | hmem
        · exact hmem
        · obtain ⟨node, hnode, hmem⟩ := List.mem_flatMap.mp hmem
          rw [hnone node hnode] at hmem
          cases hmem
      cases n <;> exact hwith _ hmem
    obtain ⟨id, he⟩ := (Dict.mem_values_iff _).mp hedges
    exact Graph.feeds_iff.mpr ⟨id, e, he, hsource, htarget⟩
  have hstep : ∀ {a b}, g.Feeds a b → FlatStep n g [a] [b] := by
    intro a b hfeeds
    obtain ⟨id, e, he, rfl, rfl⟩ := Graph.feeds_iff.mp hfeeds
    have hend : ∀ {r : PortRef} {direction} {inside boundary} {ports : Node (Nested n) → List Port},
        g.port_direction r = some direction →
          g.resolve_end_with inside boundary ports r = some [r.node_id] := by
      intro r direction inside boundary ports hport
      obtain ⟨node, hnode⟩ := (Dict.contains_iff _).mp (Graph.contains_of_port_direction hport)
      rw [Graph.resolve_end_with, hnode, Option.bind_some,
        if_neg (h (r.node_id, node) ((Dict.mem_entries_iff _).mpr hnode)).1]
    have hsource : resolve_source n g e.source = some [e.source.node_id] := by
      cases n <;> exact hend (hv.source_out he)
    have htarget : resolve_target n g e.target = some [e.target.node_id] := by
      cases n <;> exact hend (hv.target_in he)
    rw [FlatStep, flat_edges.eq_def]
    refine List.mem_append_left _ (List.mem_filterMap.mpr ⟨e, ?_, ?_⟩)
    · exact (Dict.mem_values_iff _).mpr ⟨id, he⟩
    · rw [hsource, htarget]
      rfl
  refine ⟨?_, ?_, ?_⟩
  · rintro ⟨a, b, hleak, hlong⟩
    obtain ⟨type, hmem, -⟩ := hleak.suspect
    obtain ⟨type', hmem', -⟩ := hleak.split
    rw [hshort hmem, hshort hmem'] at hlong
    omega
  · rintro ⟨t, s, -, -, hpath, hnot⟩
    exact hnot (Relation.TransGen.mono (fun _ _ => hjoined) _ _ hpath)
  · rintro ⟨t, s, -, -, hpath, hnot⟩
    exact hnot (Relation.TransGen.lift (fun id => [id]) (fun _ _ => hstep) _ _ hpath)

/-! ## A rule that is right, and one that is not -/

/-- The scaled data of `scale` is split. -/
def scale_then_split {Sub : Type} : Graph Sub where
  nodes := Dict.ofList [
    ("scale", { id := "scale", type := "transform.scale_features", ports := [
      { id := "o", name := "frame", direction := .OUT }] }),
    ("split", { id := "split", type := "ml.train_test_split", ports := [
      { id := "i", name := "frame", direction := .IN }] })]
  edges := Dict.ofList [
    ("e", { id := "e", source := ⟨"scale", "o"⟩, target := ⟨"split", "i"⟩ })]

/-- The same inside a composite. -/
def scale_then_split_inside : Graph (Nested 1) where
  nodes := Dict.ofList [
    ("c", {
      id := "c"
      type := COMPOSITE_NODE_TYPE
      subgraph := some (scale_then_split : Graph (Nested 0)) })]

/-- Outside, the leak is reported. -/
theorem scale_then_split_transparent : SeesThrough (FitBeforeSplit id) 0 scale_then_split := by
  have hv : (scale_then_split : Graph (Nested 0)).Valid := Graph.validate_structure_eq_ok.mp rfl
  have hplain : (scale_then_split : Graph (Nested 0)).WithoutSubgraphs := by
    intro e he
    exact ⟨by revert e; decide, match e.2.subgraph with | none => rfl⟩
  exact (fit_before_split_transparent_iff id hv).1.mpr (hplain.no_defect hv)

/-- Inside, it is missed. -/
theorem leak_inside_composite_missed : scale_then_split_inside.validate_structure = .ok () ∧
    ¬ SeesThrough (FitBeforeSplit id) 1 scale_then_split_inside := by
  refine ⟨rfl, fun h => ?_⟩
  have hleak : Leak (FitBeforeSplit id) 1 scale_then_split_inside ["c", "scale"] ["c", "split"] :=
    ⟨⟨"transform.scale_features", by decide, by decide⟩, ⟨"ml.train_test_split", by decide, by decide⟩,
      .single (show (_, _) ∈ flat_edges 1 scale_then_split_inside by decide)⟩
  obtain ⟨t, s, ht, -⟩ := (h _ _).mp hleak
  cases ht

end EmergentFlow
