import Mathlib.Data.List.Dedup
import EmergentFlow.Validity.Skew

/-!
# Validity — SkewLaw

When the skew rule's verdict on an `ml.predict` and a training node is that of
their frame paths: the fork it picks is the last node the paths share, and the
transforms it finds between lie on them (`FollowsFrame`).
-/

namespace EmergentFlow

/-! ## Frame paths -/

/-- Where the frame of a node comes from. -/
def Graph.frame_source {Sub : Type} (g : Graph Sub) (node_id : String) : Option String :=
  (g.nodes.get? node_id).bind fun node =>
    (g.edges.values.find? fun e =>
      e.target.node_id = node_id ∧ e.target.port_id ∈ node.port_ids "frame").map
        (·.source.node_id)

/-- The nodes that the frame of a node comes through, the nearest first. -/
inductive FramePath {Sub : Type} (g : Graph Sub) : String → List String → Prop
  | start {b : String} (h : g.frame_source b = none) : FramePath g b []
  | step {a b : String} {l : List String} (h : g.frame_source b = some a) (rest : FramePath g a l) :
      FramePath g b (a :: l)

/-- The types of the transforms among some nodes. -/
def transform_types {Sub : Type} (g : Graph Sub) (ids : List String) : List String :=
  ((ids.filterMap g.nodes.get?).filter (·.type ∈ TRANSFORM_CHAIN_NODES)).map (·.type)

variable {n : Nat} {g : Graph (Nested n)}

theorem incoming_source_frame {b a : String} (h : g.frame_source b = some a) :
    incoming_source n g b "frame" = some a := by
  obtain ⟨node, hnode, hfind⟩ := Option.bind_eq_some_iff.mp h
  obtain ⟨e, he, rfl⟩ := Option.map_eq_some_iff.mp hfind
  have hall : (all_edges n g).find? (fun e =>
      e.target.node_id = b ∧ e.target.port_id ∈ node.port_ids "frame") = some e := by
    cases n <;> exact List.find?_append.trans (by rw [he, Option.some_or])
  rw [incoming_source, hnode]
  show Option.map _ (List.find? _ _) = _
  rw [hall, Option.map_some]

theorem joined_of_frame_source {a b : String} (h : g.frame_source b = some a) : Joined n g a b := by
  obtain ⟨node, -, hfind⟩ := Option.bind_eq_some_iff.mp h
  obtain ⟨e, he, rfl⟩ := Option.map_eq_some_iff.mp hfind
  have htarget := List.find?_some he
  simp only [decide_eq_true_eq] at htarget
  exact ⟨e, mem_all_edges_of_mem (List.mem_of_find?_eq_some he), rfl, htarget.1⟩

/-- Everything on the path leads to its end. -/
theorem FramePath.reaches_end {b : String} {l : List String} (h : FramePath g b l) :
    ∀ a ∈ l, Relation.TransGen (Joined n g) a b := by
  induction h with
  | start => simp
  | step hsource _ ih =>
      intro x hx
      have hlast := joined_of_frame_source hsource
      rcases List.mem_cons.mp hx with rfl | hx
      · exact .single hlast
      · exact (ih x hx).tail hlast

/-- What is further up the path leads to what is further down. -/
theorem FramePath.pairwise {b : String} {l : List String} (h : FramePath g b l) :
    l.Pairwise fun x y => Relation.TransGen (Joined n g) y x := by
  induction h with
  | start => exact .nil
  | step _ rest ih => exact List.pairwise_cons.mpr ⟨rest.reaches_end, ih⟩

/-! ## What the rule finds between -/

/-- The transforms among some nodes. -/
def path_transforms (g : Graph (Nested n)) (ids : List String) : List (Node (Nested n)) :=
  (ids.filterMap g.nodes.get?).filter (·.type ∈ TRANSFORM_CHAIN_NODES)

theorem Graph.Valid.mem_values (hv : g.Valid) {node : Node (Nested n)} :
    node ∈ g.nodes.values ↔ g.nodes.get? node.id = some node := by
  rw [Dict.mem_values_iff]
  constructor
  · rintro ⟨k, hk⟩
    rwa [hv.node_id hk]
  · exact fun h => ⟨_, h⟩

theorem Graph.Valid.nodup_values (hv : g.Valid) : g.nodes.values.Nodup := by
  apply List.Nodup.of_map (·.id)
  have hids : g.nodes.values.map (·.id) = g.nodes.keys := by
    rw [Dict.values, Dict.keys, List.map_map]
    apply List.map_congr_left
    intro e he
    exact hv.node_id ((Dict.mem_entries_iff _).mp he)
  rw [hids]
  exact g.nodes.nodup_keys

theorem Graph.Valid.mem_path_transforms (hv : g.Valid) {ids : List String}
    {node : Node (Nested n)} : node ∈ path_transforms g ids ↔
      node ∈ g.nodes.values ∧ node.id ∈ ids ∧ node.type ∈ TRANSFORM_CHAIN_NODES := by
  rw [path_transforms, List.mem_filter, List.mem_filterMap, hv.mem_values, decide_eq_true_eq]
  constructor
  · rintro ⟨⟨k, hk, hget⟩, htype⟩
    have hid := hv.node_id hget
    exact ⟨hid ▸ hget, hid ▸ hk, htype⟩
  · rintro ⟨hget, hk, htype⟩
    exact ⟨⟨_, hk, hget⟩, htype⟩

/-- The transforms that the rule finds between the fork and a consumer are those
on a path, which has no node that leads back to itself. -/
structure Between (n : Nat) (g : Graph (Nested n)) (fork consumer : String) (path : List String) :
    Prop where
  no_cycle : ∀ x ∈ path, reaches n g x x = false
  on_path : ∀ node ∈ g.nodes.values, node.type ∈ TRANSFORM_CHAIN_NODES →
    reaches n g fork node.id = true → reaches n g node.id consumer = true → node.id ∈ path

variable {fork consumer : String} {path : List String}

theorem pairwise_reverse_path (hpath : path.Pairwise fun x y => Relation.TransGen (Joined n g) y x)
    (hcycle : ∀ x ∈ path, reaches n g x x = false) : path.reverse.Pairwise fun x y =>
      reaches n g x y = true ∧ reaches n g y x = false := by
  rw [List.pairwise_reverse]
  refine (hpath.imp_of_mem ?_)
  intro x y hx _ hxy
  refine ⟨reaches_iff.mpr hxy, ?_⟩
  rw [← Bool.not_eq_true]
  intro hback
  have hself := reaches_iff.mpr ((reaches_iff.mp hback).trans hxy)
  rw [hcycle x hx] at hself
  cases hself

theorem Between.chain (hv : g.Valid) (hb : Between n g fork consumer path)
    (hpath : path.Pairwise fun x y => Relation.TransGen (Joined n g) y x) :
    RankSort.Chain (fun a b => reaches n g a.id b.id) (path_transforms g path.reverse) := by
  constructor
  · refine (List.Pairwise.filterMap _ ?_ (pairwise_reverse_path hpath hb.no_cycle)).filter _
    intro x y hxy a ha b hb'
    rw [hv.node_id ha, hv.node_id hb']
    exact hxy
  · intro a ha
    obtain ⟨-, hid, -⟩ := hv.mem_path_transforms.mp ha
    exact hb.no_cycle _ (List.mem_reverse.mp hid)

theorem Between.perm (hv : g.Valid) (hb : Between n g fork consumer path)
    (hpath : path.Pairwise fun x y => Relation.TransGen (Joined n g) y x)
    (hup : ∀ a ∈ path, reaches n g fork a = true)
    (hdown : ∀ a ∈ path, reaches n g a consumer = true) :
    (transforms_between n g fork consumer).Perm (path_transforms g path.reverse) := by
  refine (List.perm_insertionSort _ _).trans ?_
  have hnodup : (path_transforms g path.reverse).Nodup := by
    refine (hb.chain hv hpath).ordered.imp_of_mem ?_
    rintro a b ha - ⟨hab, -⟩ rfl
    rw [(hb.chain hv hpath).irrefl a ha] at hab
    cases hab
  rw [List.perm_ext_iff_of_nodup (hv.nodup_values.filter _) hnodup]
  intro node
  rw [List.mem_filter, hv.mem_path_transforms, List.mem_reverse, decide_eq_true_eq]
  constructor
  · rintro ⟨hmem, htype, hfork, hconsumer⟩
    exact ⟨hmem, hb.on_path node hmem htype hfork hconsumer, htype⟩
  · rintro ⟨hmem, hid, htype⟩
    exact ⟨hmem, htype, hup _ hid, hdown _ hid⟩

theorem Between.chain_sequence (hv : g.Valid) (hb : Between n g fork consumer path)
    (hpath : path.Pairwise fun x y => Relation.TransGen (Joined n g) y x)
    (hup : ∀ a ∈ path, reaches n g fork a = true)
    (hdown : ∀ a ∈ path, reaches n g a consumer = true) :
    chain_sequence n g fork consumer = transform_types g path.reverse := by
  rw [EmergentFlow.chain_sequence, (hb.chain hv hpath).sort_eq (hb.perm hv hpath hup hdown)]
  rfl

/-! ## The fork -/

theorem mem_common_ancestors {a b x : String} : x ∈ common_ancestors n g a b ↔
    (x = a ∨ x ∈ upstream n g a) ∧ (x = b ∨ x ∈ upstream n g b) := by
  simp [common_ancestors]

/-- A common ancestor that is the deepest, or the first among the deepest, is
the fork. -/
theorem fork_point_eq {a b c : String} (hc : c ∈ common_ancestors n g a b)
    (hdeepest : ∀ x ∈ common_ancestors n g a b, x ≠ c →
      depth n g x < depth n g c ∨ (depth n g x = depth n g c ∧ c ≤ x)) :
    fork_point n g a b = some c := by
  have hmax : ((common_ancestors n g a b).map (depth n g)).max? = some (depth n g c) := by
    refine List.max?_eq_some_iff.mpr ⟨List.mem_map_of_mem hc, ?_⟩
    intro d hd
    obtain ⟨x, hx, rfl⟩ := List.mem_map.mp hd
    by_cases hxc : x = c
    · rw [hxc]
    · rcases hdeepest x hx hxc with hlt | ⟨heq, -⟩ <;> omega
  rw [fork_point, hmax, Option.bind_some]
  refine List.min?_eq_some_iff.mpr ⟨List.mem_filter.mpr ⟨hc, by simp⟩, ?_⟩
  intro x hx
  obtain ⟨hx, hdepth⟩ := List.mem_filter.mp hx
  by_cases hxc : x = c
  · rw [hxc]
  · rcases hdeepest x hx hxc with hlt | ⟨-, hle⟩
    · simp only [decide_eq_true_eq] at hdepth
      omega
    · exact hle

/-- What feeds a node on the path, and what is up the path from there. -/
theorem FramePath.source {b x : String} {l : List String} (h : FramePath g b l) (hx : x ∈ l) :
    ∃ a, g.frame_source b = some a ∧ (x = a ∨ x ∈ upstream n g a) := by
  cases h with
  | start => cases hx
  | @step a _ l hsource hrest =>
      refine ⟨a, hsource, ?_⟩
      rcases List.mem_cons.mp hx with rfl | hx
      · exact .inl rfl
      · exact .inr (mem_upstream_iff.mpr (reaches_iff.mpr (hrest.reaches_end x hx)))

/-! ## The verdict -/

/-- The finding is about a node of this type. -/
def ValidityFinding.about (g : Graph (Nested n)) (type : String) (finding : ValidityFinding) :
    Bool :=
  (finding.node_id.bind g.nodes.get?).any (·.type = type)

/-- What is to be reported of two sequences of transform types: nothing if they
are the same, one finding if they differ in their order alone, and otherwise
for each type as many as the one has more of it than the other. -/
structure SkewVerdict (g : Graph (Nested n)) (train predict : List String)
    (findings : List ValidityFinding) : Prop where
  reported : findings ≠ [] ↔ train ≠ predict
  reordered : train ≠ predict → train.Perm predict → findings.length = 1
  counted : ¬ train.Perm predict → ∀ type, findings.countP (·.about g type) =
    ((train.count type : Int) - predict.count type).natAbs
  about : ¬ train.Perm predict → ∀ finding ∈ findings, ∃ type ∈ TRANSFORM_CHAIN_NODES,
    finding.about g type = true

theorem countP_flatMap_of_nodup {α β : Type} [DecidableEq α] {p : β → Bool} {f : α → List β}
    {a : α} (hother : ∀ b, b ≠ a → (f b).countP p = 0) {l : List α} (hl : l.Nodup) :
    (l.flatMap f).countP p = if a ∈ l then (f a).countP p else 0 := by
  induction l with
  | nil => rfl
  | cons b l ih =>
      rw [List.nodup_cons] at hl
      rw [List.flatMap_cons, List.countP_append, ih hl.2]
      by_cases hba : b = a
      · subst hba
        rw [if_neg hl.1, if_pos List.mem_cons_self, Nat.add_zero]
      · rw [hother b hba, Nat.zero_add]
        simp [List.mem_cons, Ne.symm hba]

/-- The surplus of a type is the difference of the counts. -/
theorem countP_surplus (mine other : List (Node (Nested n))) (type : String) :
    (surplus mine other).countP (·.type = type) =
      (mine.map (·.type)).count type - (other.map (·.type)).count type := by
  -- nodes of another type do not count
  have hother : ∀ type', type' ≠ type → ((mine.filter (·.type = type')).take
      ((mine.map (·.type)).count type' - (other.map (·.type)).count type')).countP
        (·.type = type) = 0 := by
    intro type' hne
    rw [List.countP_eq_zero]
    intro node hnode
    have htype := (List.mem_filter.mp (List.mem_of_mem_take hnode)).2
    simp only [decide_eq_true_eq] at htype ⊢
    rw [htype]
    exact hne
  have hnodup : (types_of mine).Nodup :=
    List.nodup_reverse.mpr (List.nodup_dedup _)
  have hmem : type ∈ types_of mine ↔ type ∈ mine.map (·.type) := by simp [types_of]
  rw [surplus, countP_flatMap_of_nodup hother hnodup]
  split
  · have hall : ∀ node ∈ (mine.filter (·.type = type)).take
        ((mine.map (·.type)).count type - (other.map (·.type)).count type),
        decide (node.type = type) = true :=
      fun node hnode => (List.mem_filter.mp (List.mem_of_mem_take hnode)).2
    have hlength : (mine.filter (·.type = type)).length = (mine.map (·.type)).count type := by
      rw [List.count, List.countP_map, List.countP_eq_length_filter]
      rfl
    rw [List.countP_eq_length.mpr hall, List.length_take, hlength]
    omega
  · rename_i hnot
    rw [hmem] at hnot
    rw [List.count_eq_zero.mpr hnot, Nat.zero_sub]

theorem mem_of_mem_surplus {mine other : List (Node (Nested n))} {node : Node (Nested n)}
    (h : node ∈ surplus mine other) : node ∈ mine := by
  obtain ⟨type, -, hnode⟩ := List.mem_flatMap.mp h
  exact (List.mem_filter.mp (List.mem_of_mem_take hnode)).1

theorem mem_transforms_between {fork consumer : String} {node : Node (Nested n)}
    (h : node ∈ transforms_between n g fork consumer) :
    node ∈ g.nodes.values ∧ node.type ∈ TRANSFORM_CHAIN_NODES := by
  obtain ⟨hmem, htype⟩ := List.mem_filter.mp ((List.mem_insertionSort _).mp h)
  simp only [decide_eq_true_eq] at htype
  exact ⟨hmem, htype.1⟩

/-- A finding about a node of the graph is about its type. -/
theorem about_skew_finding (hv : g.Valid) {node : Node (Nested n)} (h : node ∈ g.nodes.values)
    (message : String) (related : List String) (type : String) :
    (skew_finding message node.id related).about g type = decide (node.type = type) := by
  rw [ValidityFinding.about, skew_finding, Option.bind_some, hv.mem_values.mp h, Option.any_some]

theorem countP_about (hv : g.Valid) {nodes : List (Node (Nested n))}
    (hnodes : ∀ node ∈ nodes, node ∈ g.nodes.values) (message : Node (Nested n) → String)
    (related : List String) (type : String) :
    (nodes.map fun node => skew_finding (message node) node.id related).countP (·.about g type) =
      nodes.countP (·.type = type) := by
  rw [List.countP_map]
  apply List.countP_congr
  intro node hnode
  rw [Function.comp_apply, about_skew_finding hv (hnodes node hnode)]

/-- From a fork on, the findings follow the transforms between. -/
theorem fork_findings_verdict (repr : String → String) (hv : g.Valid) {fork predict train : String}
    {train_seq predict_seq : List String}
    (htrain : chain_sequence n g fork train = train_seq)
    (hpredict : chain_sequence n g fork predict = predict_seq)
    (htrain_perm : ((transforms_between n g fork train).map (·.type)).Perm train_seq)
    (hpredict_perm : ((transforms_between n g fork predict).map (·.type)).Perm predict_seq) :
    SkewVerdict g train_seq predict_seq (fork_findings repr n g fork predict train) := by
  -- the node lists and the type sequences are permuted together
  have hperm : ((transforms_between n g fork train).map (·.type)).Perm
      ((transforms_between n g fork predict).map (·.type)) ↔ train_seq.Perm predict_seq :=
    ⟨fun h => htrain_perm.symm.trans (h.trans hpredict_perm),
      fun h => htrain_perm.trans (h.trans hpredict_perm.symm)⟩
  have hne : ¬ train_seq.Perm predict_seq → train_seq ≠ predict_seq := by
    rintro hsame rfl
    exact hsame (List.Perm.refl _)
  have hcounted : ¬ train_seq.Perm predict_seq → ∀ type,
      (fork_findings repr n g fork predict train).countP (·.about g type) =
        ((train_seq.count type : Int) - predict_seq.count type).natAbs := by
    intro hsame type
    rw [fork_findings, htrain, hpredict, if_neg (hne hsame), if_neg (fun h => hsame (hperm.mp h)),
      List.countP_append]
    rw [countP_about hv (fun node hnode => (mem_transforms_between (mem_of_mem_surplus hnode)).1),
      countP_about hv (fun node hnode => (mem_transforms_between (mem_of_mem_surplus hnode)).1),
      countP_surplus, countP_surplus, htrain_perm.count_eq, hpredict_perm.count_eq]
    omega
  have habout : ¬ train_seq.Perm predict_seq →
      ∀ finding ∈ fork_findings repr n g fork predict train,
        ∃ type ∈ TRANSFORM_CHAIN_NODES, finding.about g type = true := by
    intro hsame finding hfinding
    rw [fork_findings, htrain, hpredict, if_neg (hne hsame),
      if_neg (fun h => hsame (hperm.mp h))] at hfinding
    have hsome : ∀ {mine other consumer}, mine = transforms_between n g fork consumer →
        ∀ (message : Node (Nested n) → String) (related : List String),
        finding ∈ (surplus mine other).map (fun node =>
          skew_finding (message node) node.id related) →
        ∃ type ∈ TRANSFORM_CHAIN_NODES, finding.about g type = true := by
      rintro _ other consumer rfl message related hmem
      obtain ⟨node, hnode, rfl⟩ := List.mem_map.mp hmem
      obtain ⟨hvalues, htype⟩ := mem_transforms_between (mem_of_mem_surplus hnode)
      exact ⟨node.type, htype, by rw [about_skew_finding hv hvalues]; simp⟩
    rcases List.mem_append.mp hfinding with hmem | hmem
    · exact hsome rfl _ _ hmem
    · exact hsome rfl _ _ hmem
  have hreordered : train_seq ≠ predict_seq → train_seq.Perm predict_seq →
      (fork_findings repr n g fork predict train).length = 1 := by
    intro hne hsame
    simp only [fork_findings, htrain, hpredict, if_neg hne, if_pos (hperm.mpr hsame)]
    rfl
  refine ⟨?_, hreordered, hcounted, habout⟩
  constructor
  · rintro hfindings rfl
    exact hfindings (by simp only [fork_findings, htrain, hpredict, if_pos])
  · intro hne hnil
    by_cases hsame : train_seq.Perm predict_seq
    · have hone := hreordered hne hsame
      rw [hnil] at hone
      cases hone
    · apply hsame
      rw [List.perm_iff_count]
      intro type
      have hcount := hcounted hsame type
      rw [hnil, List.countP_nil] at hcount
      omega

/-! ## The law -/

/-- The frame paths of the two nodes meet: `c` is the last node they share, and
below it they run through `above_predict` and `above_train`, the nearest first. -/
structure FramesFork {Sub : Type} (g : Graph Sub) (predict train : String)
    (above_predict above_train : List String) (c : String) : Prop where
  predict_path : ∃ shared, FramePath g predict (above_predict ++ c :: shared)
  train_path : ∃ shared, FramePath g train (above_train ++ c :: shared)
  apart : ∀ x ∈ above_predict, x ∉ above_train

/-- The side inputs of the graph stay out of the way: of all that leads to both
frames `c` is the deepest, and the transforms between it and either node lie on
the frame paths. -/
structure FollowsFrame (n : Nat) (g : Graph (Nested n)) (predict train : String)
    (above_predict above_train : List String) (c : String) : Prop where
  deepest : ∀ a b, g.frame_source predict = some a → g.frame_source train = some b →
    ∀ x ∈ common_ancestors n g a b, x ≠ c →
      depth n g x < depth n g c ∨ (depth n g x = depth n g c ∧ c ≤ x)
  predict_side : Between n g c predict above_predict
  train_side : Between n g c train above_train

theorem between_fork {consumer c : String} {path shared : List String}
    (h : FramePath g consumer (path ++ c :: shared)) :
    (path.Pairwise fun x y => Relation.TransGen (Joined n g) y x) ∧
      (∀ a ∈ path, reaches n g c a = true) ∧ ∀ a ∈ path, reaches n g a consumer = true := by
  obtain ⟨hpath, -, hcross⟩ := List.pairwise_append.mp h.pairwise
  exact ⟨hpath, fun a ha => reaches_iff.mpr (hcross a ha c List.mem_cons_self),
    fun a ha => reaches_iff.mpr (h.reaches_end a (List.mem_append_left _ ha))⟩

/-- What is said of a pair is among the findings of the rule. -/
theorem mem_trainServeSkew {repr : String → String} {predict train : Node (Nested n)}
    (hpredict : predict ∈ scoring n g) (htrain : train ∈ training n g) {finding : ValidityFinding}
    (h : finding ∈ pair_findings repr n g predict.id train.id) :
    finding ∈ TrainServeSkew repr n g := by
  obtain ⟨hmem, hserves⟩ := List.mem_filter.mp ((List.mem_insertionSort _).mp hpredict)
  rw [serves_loaded_model, Bool.and_eq_true, decide_eq_true_eq, Option.any_eq_true] at hserves
  obtain ⟨htype, feeder, hfeeder, hload⟩ := hserves
  obtain ⟨id, -, hget⟩ := Option.bind_eq_some_iff.mp hfeeder
  have happlies : (g.nodes.values.any (·.type = "ml.predict") &&
      g.nodes.values.any (·.type = "ml.load_model")) = true := by
    rw [Bool.and_eq_true, List.any_eq_true, List.any_eq_true]
    exact ⟨⟨predict, hmem, decide_eq_true htype⟩,
      ⟨feeder, (Dict.mem_values_iff _).mpr ⟨id, hget⟩, hload⟩⟩
  rw [TrainServeSkew, if_pos happlies, List.mem_flatMap]
  exact ⟨predict, hpredict, List.mem_flatMap.mpr ⟨train, htrain, h⟩⟩

theorem skew_verdict_of_follows (repr : String → String) (hv : g.Valid)
    {predict train : Node (Nested n)} (hpredict : predict ∈ scoring n g)
    (htrain : train ∈ training n g) {above_predict above_train : List String} {c : String}
    (hfork : FramesFork g predict.id train.id above_predict above_train c)
    (hfollows : FollowsFrame n g predict.id train.id above_predict above_train c) :
    (∀ finding ∈ pair_findings repr n g predict.id train.id,
        finding ∈ TrainServeSkew repr n g) ∧
      SkewVerdict g (transform_types g above_train.reverse) (transform_types g above_predict.reverse)
        (pair_findings repr n g predict.id train.id) := by
  obtain ⟨shared, hpredict_path⟩ := hfork.predict_path
  obtain ⟨shared', htrain_path⟩ := hfork.train_path
  constructor
  · exact fun finding hfinding => mem_trainServeSkew hpredict htrain hfinding
  · obtain ⟨a, ha, hca⟩ := hpredict_path.source
      (List.mem_append_right _ List.mem_cons_self : c ∈ above_predict ++ c :: shared)
    obtain ⟨b, hb, hcb⟩ := htrain_path.source
      (List.mem_append_right _ List.mem_cons_self : c ∈ above_train ++ c :: shared')
    have hc : fork_point n g a b = some c :=
      fork_point_eq (mem_common_ancestors.mpr ⟨hca, hcb⟩) (hfollows.deepest a b ha hb)
    have hpair : pair_findings repr n g predict.id train.id =
        fork_findings repr n g c predict.id train.id := by
      simp only [pair_findings, incoming_source_frame ha, incoming_source_frame hb,
        Option.getD_some, hc]
    obtain ⟨hpath, hup, hdown⟩ := between_fork hpredict_path
    obtain ⟨hpath', hup', hdown'⟩ := between_fork htrain_path
    rw [hpair]
    exact fork_findings_verdict repr hv
      (hfollows.train_side.chain_sequence hv hpath' hup' hdown')
      (hfollows.predict_side.chain_sequence hv hpath hup hdown)
      ((hfollows.train_side.perm hv hpath' hup' hdown').map _)
      ((hfollows.predict_side.perm hv hpath hup hdown).map _)

namespace SkewExample

/-- A node with one frame coming in and one going out. -/
def step_node (id type : String) : Node Empty :=
  { id, type, ports := [{ id := id ++ "-in", name := "frame", direction := .IN },
      { id := id ++ "-out", name := "result", direction := .OUT }] }

def wire (source source_port target target_port : String) : Edge :=
  { id := source ++ "-" ++ target, source := ⟨source, source_port⟩, target := ⟨target, target_port⟩ }

def frame_edge (source target : String) : Edge :=
  wire source (source ++ "-out") target (target ++ "-in")

def graph_of (nodes : List (Node Empty)) (edges : List Edge) : Graph Empty :=
  { nodes := Dict.ofList (nodes.map fun node => (node.id, node))
    edges := Dict.ofList (edges.map fun edge => (edge.id, edge)) }

def load_model : Node Empty :=
  { id := "load", type := "ml.load_model"
    ports := [{ id := "load-out", name := "model", direction := .OUT }] }

def predict_node : Node Empty :=
  { id := "predict", type := "ml.predict"
    ports := [{ id := "predict-model", name := "model", direction := .IN },
      { id := "predict-in", name := "frame", direction := .IN }] }

/-- An `ml.transform`, which takes a fitted transformer besides the frame. -/
def transform_node (id : String) : Node Empty :=
  { step_node id "ml.transform" with
    ports := { id := id ++ "-fitted", name := "transformer", direction := .IN } ::
      (step_node id "ml.transform").ports }

/-- One source, an `ml.transform` before the training and one before the
prediction, and what fits the transformer of the former. -/
def nodes : List (Node Empty) :=
  [step_node "src" "data.load_csv", step_node "fit" "ml.fit_transform", transform_node "t1",
    transform_node "t2", step_node "train" "ml.fit_estimator", load_model, predict_node]

def frame_edges : List Edge :=
  [frame_edge "src" "fit", frame_edge "src" "t1", frame_edge "src" "t2", frame_edge "t1" "train",
    frame_edge "t2" "predict", wire "load" "load-out" "predict" "predict-model"]

/-- Nothing but frames and the model. -/
def plain : Graph Empty := graph_of nodes frame_edges

/-- With the fitted transformer. -/
def fitted : Graph Empty :=
  graph_of nodes (wire "fit" "fit-out" "t1" "t1-fitted" :: frame_edges)

end SkewExample

namespace SkewExample

theorem plain_valid : plain.Valid := Graph.validate_structure_eq_ok.mp rfl

theorem fitted_valid : fitted.Valid := Graph.validate_structure_eq_ok.mp rfl

theorem path_src {g : Graph Empty} (h : g.frame_source "src" = none) : FramePath g "src" [] :=
  .start h

theorem plain_forks : FramesFork plain "predict" "train" ["t2"] ["t1"] "src" := by
  refine ⟨⟨[], ?_⟩, ⟨[], ?_⟩, by decide⟩
  · exact .step (by decide +kernel) (.step (by decide +kernel) (path_src (by decide +kernel)))
  · exact .step (by decide +kernel) (.step (by decide +kernel) (path_src (by decide +kernel)))

theorem fitted_forks : FramesFork fitted "predict" "train" ["t2"] ["t1"] "src" := by
  refine ⟨⟨[], ?_⟩, ⟨[], ?_⟩, by decide⟩
  · exact .step (by decide +kernel) (.step (by decide +kernel) (path_src (by decide +kernel)))
  · exact .step (by decide +kernel) (.step (by decide +kernel) (path_src (by decide +kernel)))

end SkewExample

open SkewExample

/-- The fitted transformer is taken for a step of the training path. -/
theorem fitted_transformer_reported :
    ¬ ∀ (repr : String → String) (n : Nat) (g : Graph (Nested n)) (predict train : Node (Nested n))
      (above_predict above_train : List String) (c : String), g.Valid →
      predict ∈ scoring n g → train ∈ training n g →
      FramesFork g predict.id train.id above_predict above_train c →
      SkewVerdict g (transform_types g above_train.reverse)
        (transform_types g above_predict.reverse) (pair_findings repr n g predict.id train.id) := by
  intro hclaim
  have hscoring : scoring 0 fitted = [predict_node] := rfl
  have htraining : training 0 fitted = [step_node "train" "ml.fit_estimator"] := rfl
  have hverdict := hclaim id 0 fitted predict_node (step_node "train" "ml.fit_estimator") ["t2"]
    ["t1"] "src" fitted_valid (hscoring ▸ List.mem_cons_self) (htraining ▸ List.mem_cons_self)
    fitted_forks
  have hsame : transform_types fitted ["t1"] = transform_types fitted ["t2"] := by decide +kernel
  have hreported : (pair_findings id 0 fitted "predict" "train").length = 1 := by decide +kernel
  refine hverdict.reported.mp ?_ hsame
  intro hnil
  change pair_findings id 0 fitted "predict" "train" = [] at hnil
  rw [hnil] at hreported
  cases hreported

/-- Without it the two paths are the same. -/
theorem plain_verdict : SkewVerdict (n := 0) plain ["ml.transform"] ["ml.transform"]
    (pair_findings id 0 plain "predict" "train") := by
  have hscoring : scoring 0 plain = [predict_node] := rfl
  have htraining : training 0 plain = [step_node "train" "ml.fit_estimator"] := rfl
  have hpredict : predict_node ∈ scoring 0 plain := hscoring ▸ List.mem_cons_self
  have htrain : step_node "train" "ml.fit_estimator" ∈ training 0 plain :=
    htraining ▸ List.mem_cons_self
  refine (skew_verdict_of_follows id plain_valid hpredict htrain plain_forks ?_).2
  refine ⟨?_, ⟨by decide +kernel, by decide +kernel⟩, ⟨by decide +kernel, by decide +kernel⟩⟩
  intro a b ha hb
  have hframes : plain.frame_source "predict" = some "t2" ∧
      plain.frame_source "train" = some "t1" := by decide +kernel
  have hsource : some "t2" = some a := hframes.1.symm.trans ha
  have hsource' : some "t1" = some b := hframes.2.symm.trans hb
  cases hsource
  cases hsource'
  have hcommon : common_ancestors 0 plain "t2" "t1" = ["src"] := by decide +kernel
  intro x hx hne
  rw [hcommon, List.mem_singleton] at hx
  exact absurd hx hne

end EmergentFlow
