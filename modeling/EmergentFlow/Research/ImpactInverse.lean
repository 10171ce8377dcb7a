import EmergentFlow.Research.Impact

/-!
# Research — ImpactInverse

When the two column traces of `research/lineage.py` are inverse to each
other. The backward one follows the frame input of each node, the forward
one every edge, and columns of any name across it; `ColumnsCarried` says
of a graph that this makes no difference, and is exactly the condition.
-/

namespace EmergentFlow

open Relation (ReflTransGen TransGen)

variable {Sub : Type}

section Law

variable (parse : String → Option PyExpr) (effects : String → Option ColumnEffectKind)
  (g : Graph Sub) (observed : Observed)

/-! ## The law -/

/-- `q` is in the column lineage of `p`. -/
def InLineage (p q : NodeColumn) : Prop :=
  ∃ lineage, trace_column_lineage parse effects g p.1 p.2 observed = .ok lineage ∧
    ∃ entry ∈ lineage.nodes, entry.key = q

/-- `q` is in the column impact of `p`. -/
def InImpact (p q : NodeColumn) : Prop :=
  ∃ impact, trace_column_impact parse effects g p.1 p.2 observed = .ok impact ∧
    ∃ entry ∈ impact.nodes, entry.Impacted ∧ entry.key = q

/-- What the impact trace promises of a graph. -/
structure ImpactInverse : Prop where
  /-- It is the inverse of the lineage trace. -/
  inverse : ∀ p q : NodeColumn, p.1 ∈ g.nodes.keys → q.1 ∈ g.nodes.keys →
    (InImpact parse effects g observed p q ↔ InLineage parse effects g observed q p)
  /-- Its edges lead from the start to all that is impacted. -/
  connected : ∀ p : NodeColumn, p.1 ∈ g.nodes.keys → ∀ impact,
    trace_column_impact parse effects g p.1 p.2 observed = .ok impact →
      ∀ entry ∈ impact.nodes, entry.Impacted → entry.key ≠ p →
        TransGen impact.Joins p entry.key

/-! ## The condition -/

/-- Column `c` of `n` comes from the column of that name of its frame input `m`. -/
def Carries (c m n : String) : Prop := ComesFrom parse effects g (n, c) (m, c)

/-- Columns only travel under their own name, along the frame inputs. -/
structure ColumnsCarried : Prop where
  /-- A node that keeps a column gets it from whatever feeds the node. -/
  carried : ∀ m n node c, g.Feeds m n → g.nodes.get? n = some node → node.keeps c →
    TransGen (Carries parse effects g c) m n
  /-- A column derived at a node with an input refers to no other. -/
  own : ∀ m n node spec name, g.Feeds m n → g.nodes.get? n = some node →
    node.type = DERIVE_COLUMN → spec ∈ node.derive_specs → spec.derived_name = some name →
      ∀ r ∈ derive_spec_source_cols parse spec, r = name

end Law

variable {parse : String → Option PyExpr} {effects : String → Option ColumnEffectKind}
  {g : Graph Sub} {observed : Observed}

/-! ## One step forward -/

/-- What is collected at a node that something with the column feeds. -/
theorem reaches_of_feeds (hv : g.Valid) (hacyclic : Closure.Acyclic g.Feeds)
    {start column m n c : String} {node : Node Sub} (hstart : start ∈ g.nodes.keys)
    (hm : Reaches parse g start column (m, c)) (hfeeds : g.Feeds m n) (hne : n ≠ start)
    (hnode : g.nodes.get? n = some node) {d : String}
    (hd : ∀ collected : List String, c ∈ collected → d ∈ node.output_columns parse collected) :
    Reaches parse g start column (n, d) := by
  have hinv := column_reach_inv parse hv hacyclic hstart column
  obtain ⟨-, -, horder⟩ := downstream_order_spec hv hacyclic hstart
  obtain ⟨outs, hget, hc⟩ := hm
  have hn : n ∈ downstream_order g start := by
    rw [horder]
    rcases hinv.domain m outs hget with rfl | hmem
    · exact .single hfeeds
    · exact ((horder m).mp hmem).tail hfeeds
  exact ⟨_, hinv.output n hn hne node hnode,
    hd _ (ColumnReach.mem_collect.mpr ⟨m, outs, hfeeds, hget, hc⟩)⟩

/-- The start holds its own column. -/
theorem reaches_start (hv : g.Valid) (hacyclic : Closure.Acyclic g.Feeds) {start : String}
    (hstart : start ∈ g.nodes.keys) (column : String) :
    Reaches parse g start column (start, column) :=
  ⟨[column], (column_reach_inv parse hv hacyclic hstart column).seed, List.mem_singleton_self _⟩

/-- A kept column reaches the node it is fed to. -/
theorem reaches_of_keeps (hv : g.Valid) (hacyclic : Closure.Acyclic g.Feeds) {m n c : String}
    {node : Node Sub} (hfeeds : g.Feeds m n) (hnode : g.nodes.get? n = some node)
    (hkeeps : node.keeps c) : Reaches parse g m c (n, c) := by
  have hm := (hv.mem_keys hfeeds).1
  refine reaches_of_feeds hv hacyclic hm (reaches_start hv hacyclic hm c) hfeeds ?_ hnode
    fun collected hc => mem_output_columns_of_surviving (mem_surviving_columns.mpr ⟨hc, hkeeps⟩)
  rintro rfl
  exact hacyclic n (.single hfeeds)

/-- A derived column is reached by the columns it refers to. -/
theorem reaches_of_derived (hv : g.Valid) (hacyclic : Closure.Acyclic g.Feeds)
    {m n name r : String} {node : Node Sub} {spec : ParamValue} (hfeeds : g.Feeds m n)
    (hnode : g.nodes.get? n = some node) (htype : node.type = DERIVE_COLUMN)
    (hspec : spec ∈ node.derive_specs) (hname : spec.derived_name = some name)
    (hr : r ∈ derive_spec_source_cols parse spec) : Reaches parse g m r (n, name) := by
  have hm := (hv.mem_keys hfeeds).1
  refine reaches_of_feeds hv hacyclic hm (reaches_start hv hacyclic hm r) hfeeds ?_ hnode
    fun collected hc => mem_output_columns_of_derived htype hspec hname hr hc
  rintro rfl
  exact hacyclic n (.single hfeeds)

/-! ## The two traces -/

theorem inLineage_iff (hv : g.Valid) (hacyclic : Closure.Acyclic g.Feeds) {p q : NodeColumn}
    (hp : p.1 ∈ g.nodes.keys) :
    InLineage parse effects g observed p q ↔ ReflTransGen (ComesFrom parse effects g) p q := by
  obtain ⟨lineage, htrace, hentries⟩ :=
    trace_column_lineage_entries observed hv hacyclic hp p.2
  rw [InLineage, htrace, ← hentries q]
  simp

theorem inImpact_iff (hv : g.Valid) (hacyclic : Closure.Acyclic g.Feeds) {p q : NodeColumn}
    (hp : p.1 ∈ g.nodes.keys) :
    InImpact parse effects g observed p q ↔ q = p ∨ (q.1 ≠ p.1 ∧
      (Reaches parse g p.1 p.2 q ∨ RefersTo parse g p.1 p.2 q)) := by
  obtain ⟨impact, htrace, hentries, -⟩ :=
    trace_column_impact_report effects observed hv hacyclic hp p.2
  rw [InImpact, htrace, ← hentries q]
  simp

/-! ## The condition is needed -/

/-- Reported edges keep the name of a column. -/
theorem same_column_of_joins (hv : g.Valid) (hacyclic : Closure.Acyclic g.Feeds) {p q : NodeColumn}
    (hp : p.1 ∈ g.nodes.keys) {impact : ColumnLineage}
    (himpact : trace_column_impact parse effects g p.1 p.2 observed = .ok impact)
    (hpath : TransGen impact.Joins p q) : q.2 = p.2 := by
  obtain ⟨impact', himpact', -, hedges⟩ :=
    trace_column_impact_report effects observed hv hacyclic hp p.2
  rw [himpact, Except.ok.injEq] at himpact'
  subst himpact'
  have hstep : ∀ {a b}, impact.Joins a b → b.2 = a.2 := by
    rintro a b ⟨edge, hmem, rfl, rfl⟩
    exact ((hedges edge).mp hmem).2.1.symm
  induction hpath with
  | single h => exact hstep h
  | tail _ h ih => exact (hstep h).trans ih

/-- Where the edges lead to all that is impacted, derived columns refer to
no other column. -/
theorem ImpactInverse.own (h : ImpactInverse parse effects g observed) (hv : g.Valid)
    (hacyclic : Closure.Acyclic g.Feeds) {m n name r : String} {node : Node Sub}
    {spec : ParamValue} (hfeeds : g.Feeds m n) (hnode : g.nodes.get? n = some node)
    (htype : node.type = DERIVE_COLUMN) (hspec : spec ∈ node.derive_specs)
    (hname : spec.derived_name = some name) (hr : r ∈ derive_spec_source_cols parse spec) :
    r = name := by
  have hm := (hv.mem_keys hfeeds).1
  have hne : n ≠ m := by
    rintro rfl
    exact hacyclic n (.single hfeeds)
  have hreaches := reaches_of_derived hv hacyclic hfeeds hnode htype hspec hname hr
  have himpact : InImpact parse effects g observed (m, r) (n, name) :=
    (inImpact_iff hv hacyclic hm).mpr (.inr ⟨hne, .inl hreaches⟩)
  obtain ⟨impact, htrace, entry, hentry, himpacted, hkey⟩ := himpact
  have hpath := h.connected (m, r) hm impact htrace entry hentry himpacted (by
    rw [hkey]
    exact fun heq => hne (congrArg Prod.fst heq))
  rw [hkey] at hpath
  exact (same_column_of_joins hv hacyclic hm htrace hpath).symm

/-- Where derived columns refer to no other, an input of a column has its name. -/
theorem ComesFrom.same_column (hv : g.Valid)
    (hown : ∀ m n node spec name, g.Feeds m n → g.nodes.get? n = some node →
      node.type = DERIVE_COLUMN → spec ∈ node.derive_specs → spec.derived_name = some name →
        ∀ r ∈ derive_spec_source_cols parse spec, r = name) {p q : NodeColumn}
    (h : ComesFrom parse effects g p q) : q.2 = p.2 := by
  have hfeeds := h.feeds hv
  obtain ⟨node, role, cols, hnode, hresolve, hrole, hmem, -⟩ := h
  -- a column under another name could only come from a derived one
  unfold resolve_column at hresolve
  split at hresolve
  · split at hresolve
    · split at hresolve
      · cases hresolve
        exact List.mem_singleton.mp hmem
      · cases hresolve
    · cases hresolve
  · split at hresolve
    · rename_i htype
      split at hresolve
      · rename_i spec hfind
        cases hresolve
        have hname := List.find?_some hfind
        exact hown _ _ node spec p.2 hfeeds hnode htype (List.mem_of_find?_eq_some hfind)
          (of_decide_eq_true hname) _ hmem
      · split at hresolve
        · cases hresolve
          exact List.mem_singleton.mp hmem
        · cases hresolve
    · split at hresolve
      · cases hresolve
        exact absurd rfl hrole
      · split at hresolve
        · split at hresolve
          · cases hresolve
            exact List.mem_singleton.mp hmem
          · cases hresolve
        · split at hresolve
          · cases hresolve
            exact absurd rfl hrole
          · cases hresolve

/-- A lineage that keeps the name of a column follows it along the frame
inputs. -/
theorem carries_of_comesFrom (hsame : ∀ {p q : NodeColumn}, ComesFrom parse effects g p q →
    q.2 = p.2) {p q : NodeColumn} (h : ReflTransGen (ComesFrom parse effects g) p q) :
    q.2 = p.2 ∧ ReflTransGen (Carries parse effects g p.2) q.1 p.1 := by
  induction h with
  | refl => exact ⟨rfl, .refl⟩
  | @tail b c _ hstep ih =>
      have hcolumn := hsame hstep
      refine ⟨hcolumn.trans ih.1, .head ?_ ih.2⟩
      have hb : (b.1, p.2) = b := Prod.ext rfl ih.1.symm
      have hc : (c.1, p.2) = c := Prod.ext rfl (hcolumn.trans ih.1).symm
      rw [Carries, hb, hc]
      exact hstep

theorem comesFrom_of_carries {c m n : String} (h : ReflTransGen (Carries parse effects g c) m n) :
    ReflTransGen (ComesFrom parse effects g) (n, c) (m, c) := by
  induction h with
  | refl => exact .refl
  | tail _ hstep ih => exact .head hstep ih

theorem ImpactInverse.columnsCarried (h : ImpactInverse parse effects g observed) (hv : g.Valid)
    (hacyclic : Closure.Acyclic g.Feeds) : ColumnsCarried parse effects g := by
  have hown : ∀ m n node spec name, g.Feeds m n → g.nodes.get? n = some node →
      node.type = DERIVE_COLUMN → spec ∈ node.derive_specs → spec.derived_name = some name →
        ∀ r ∈ derive_spec_source_cols parse spec, r = name :=
    fun m n node spec name hfeeds hnode htype hspec hname r hr =>
      h.own hv hacyclic hfeeds hnode htype hspec hname hr
  refine ⟨?_, hown⟩
  intro m n node c hfeeds hnode hkeeps
  obtain ⟨hm, hn⟩ := hv.mem_keys hfeeds
  have hne : n ≠ m := by
    rintro rfl
    exact hacyclic n (.single hfeeds)
  have hreaches : Reaches parse g m c (n, c) := reaches_of_keeps hv hacyclic hfeeds hnode hkeeps
  have hlineage := (h.inverse (m, c) (n, c) hm hn).mp
    ((inImpact_iff hv hacyclic hm).mpr (.inr ⟨hne, .inl hreaches⟩))
  obtain ⟨-, hpath⟩ := carries_of_comesFrom (fun hstep => hstep.same_column hv hown)
    ((inLineage_iff hv hacyclic hn).mp hlineage)
  rcases Relation.reflTransGen_iff_eq_or_transGen.mp hpath with heq | hpath
  · exact absurd heq hne
  · exact hpath

/-! ## The condition is enough -/

/-- An edge leads from `m` into `n`, which keeps the column. -/
def Kept (g : Graph Sub) (c m n : String) : Prop :=
  g.Feeds m n ∧ ∃ node, g.nodes.get? n = some node ∧ node.keeps c

/-- Where derived columns refer to no other, the output has what survives. -/
theorem mem_output_columns_of_own {node : Node Sub} {collected : List String} {c : String}
    (hown : node.type = DERIVE_COLUMN → ∀ spec ∈ node.derive_specs, ∀ name,
      spec.derived_name = some name → ∀ r ∈ derive_spec_source_cols parse spec, r = name)
    (hc : c ∈ node.output_columns parse collected) : c ∈ surviving_columns node collected := by
  unfold Node.output_columns at hc
  split at hc
  · rename_i htype
    have hown := hown htype
    generalize surviving_columns node collected = columns at hc ⊢
    generalize node.derive_specs = specs at hc hown
    induction specs generalizing columns with
    | nil => exact hc
    | cons spec specs ih =>
        have hmem := ih _ hc fun s hs => hown s (List.mem_cons_of_mem _ hs)
        rcases mem_add_derived.mp hmem with hmem | ⟨hname, r, hr, hmem⟩
        · exact hmem
        · rwa [← hown spec List.mem_cons_self c hname r hr]
  · exact hc

/-- What feeds a node other than the start that columns reach. -/
theorem exists_feeds_of_reaches (hv : g.Valid) (hacyclic : Closure.Acyclic g.Feeds)
    {start column : String} (hstart : start ∈ g.nodes.keys) {q : NodeColumn}
    (h : Reaches parse g start column q) (hne : q.1 ≠ start) :
    q.1 ∈ downstream_order g start ∧ ∃ m, g.Feeds m q.1 := by
  obtain ⟨outs, hget, -⟩ := h
  obtain ⟨-, -, horder⟩ := downstream_order_spec hv hacyclic hstart
  have hmem := ((column_reach_inv parse hv hacyclic hstart column).domain _ _ hget).resolve_left hne
  refine ⟨hmem, ?_⟩
  rcases ((horder _).mp hmem).cases_tail with heq | ⟨m, -, hfeeds⟩
  · exact absurd heq hne
  · exact ⟨m, hfeeds⟩

/-- A column reaches exactly the nodes that edges lead to through nodes
that keep it. -/
theorem ColumnsCarried.reaches_iff (h : ColumnsCarried parse effects g) (hv : g.Valid)
    (hacyclic : Closure.Acyclic g.Feeds) {start column : String} (hstart : start ∈ g.nodes.keys)
    {q : NodeColumn} : Reaches parse g start column q ↔
      q.2 = column ∧ ReflTransGen (Kept g column) start q.1 := by
  have hinv := column_reach_inv parse hv hacyclic hstart column
  obtain ⟨order, horder⟩ := topological_sort_of_acyclic hv hacyclic
  obtain ⟨hperm, hrespects⟩ := topological_sort_eq_ok hv horder
  constructor
  · -- induction along the topological order
    generalize hrank : order.idxOf q.1 = rank
    induction rank using Nat.strong_induction_on generalizing q with
    | _ rank ih =>
        intro hreaches
        by_cases hne : q.1 = start
        · obtain ⟨outs, hget, hmem⟩ := hreaches
          rw [hne, hinv.seed, Option.some.injEq] at hget
          subst hget
          rw [hne]
          exact ⟨List.mem_singleton.mp hmem, .refl⟩
        · obtain ⟨hdown, m', hfeeds'⟩ := exists_feeds_of_reaches hv hacyclic hstart hreaches hne
          obtain ⟨node, hnode⟩ := (Dict.mem_keys_iff _).mp (hv.mem_keys hfeeds').2
          obtain ⟨outs, hget, hmem⟩ := hreaches
          rw [hinv.output _ hdown hne node hnode, Option.some.injEq] at hget
          subst hget
          have hsurvives := mem_output_columns_of_own (fun htype spec hspec name =>
            h.own m' _ node spec name hfeeds' hnode htype hspec) hmem
          obtain ⟨hcollected, hkeeps⟩ := mem_surviving_columns.mp hsurvives
          obtain ⟨m, outs, hfeeds, hget, hmem⟩ := ColumnReach.mem_collect.mp hcollected
          have hlt : order.idxOf m < order.idxOf q.1 :=
            hrespects.idxOf_lt hfeeds (hperm.mem_iff.mpr (hv.mem_keys hfeeds).2)
          obtain ⟨hcolumn, hpath⟩ := ih (order.idxOf m) (by omega) (q := (m, q.2)) rfl
            ⟨outs, hget, hmem⟩
          have hcolumn : q.2 = column := hcolumn
          exact ⟨hcolumn, hpath.tail ⟨hfeeds, node, hnode, hcolumn ▸ hkeeps⟩⟩
  · rintro ⟨hcolumn, hpath⟩
    have hq : q = (q.1, column) := Prod.ext rfl hcolumn
    rw [hq]
    clear hq hcolumn
    generalize q.1 = n at hpath
    induction hpath with
    | refl => exact reaches_start hv hacyclic hstart column
    | @tail m n hpath hstep ih =>
        obtain ⟨hfeeds, node, hnode, hkeeps⟩ := hstep
        by_cases hne : n = start
        · rw [hne]
          exact reaches_start hv hacyclic hstart column
        · exact reaches_of_feeds hv hacyclic hstart ih hfeeds hne hnode fun collected hc =>
            mem_output_columns_of_surviving (mem_surviving_columns.mpr ⟨hc, hkeeps⟩)

theorem ColumnsCarried.inImpact_iff (h : ColumnsCarried parse effects g) (hv : g.Valid)
    (hacyclic : Closure.Acyclic g.Feeds) {p q : NodeColumn} (hp : p.1 ∈ g.nodes.keys) :
    InImpact parse effects g observed p q ↔ q.2 = p.2 ∧ ReflTransGen (Kept g p.2) p.1 q.1 := by
  rw [EmergentFlow.inImpact_iff hv hacyclic hp, ← h.reaches_iff hv hacyclic hp]
  constructor
  · rintro (rfl | ⟨hne, hreaches | ⟨node, hnode, htype, spec, hspec, hname, r, hr, hreaches⟩⟩)
    · exact reaches_start hv hacyclic hp q.2
    · exact hreaches
    · obtain ⟨-, m, hfeeds⟩ := exists_feeds_of_reaches hv hacyclic hp hreaches hne
      have hr : r = q.2 := h.own m _ node spec _ hfeeds hnode htype hspec hname r hr
      rwa [hr] at hreaches
  · intro hreaches
    by_cases hne : q.1 = p.1
    · have hcolumn := ((h.reaches_iff hv hacyclic hp).mp hreaches).1
      exact .inl (Prod.ext hne hcolumn)
    · exact .inr ⟨hne, .inl hreaches⟩

theorem kept_of_carries (hv : g.Valid) {c m n : String} (h : Carries parse effects g c m n) :
    Kept g c m n := by
  have hfeeds := ComesFrom.feeds hv h
  obtain ⟨node, role, cols, hnode, hresolve, -⟩ := h
  exact ⟨hfeeds, node, hnode, keeps_of_resolve hresolve⟩

theorem ColumnsCarried.inLineage_iff (h : ColumnsCarried parse effects g) (hv : g.Valid)
    (hacyclic : Closure.Acyclic g.Feeds) {p q : NodeColumn} (hq : q.1 ∈ g.nodes.keys) :
    InLineage parse effects g observed q p ↔ q.2 = p.2 ∧ ReflTransGen (Kept g p.2) p.1 q.1 := by
  rw [EmergentFlow.inLineage_iff hv hacyclic hq]
  constructor
  · intro hpath
    obtain ⟨hcolumn, hpath⟩ := carries_of_comesFrom (fun hstep => hstep.same_column hv h.own) hpath
    rw [hcolumn]
    exact ⟨rfl, hpath.lift id fun m n => kept_of_carries hv⟩
  · rintro ⟨hcolumn, hpath⟩
    have hcarries : ReflTransGen (Carries parse effects g p.2) p.1 q.1 := by
      generalize q.1 = n at hpath
      induction hpath with
      | refl => exact .refl
      | tail _ hstep ih =>
          obtain ⟨hfeeds, node, hnode, hkeeps⟩ := hstep
          exact ih.trans (h.carried _ _ node _ hfeeds hnode hkeeps).to_reflTransGen
    have hq : (q.1, p.2) = q := Prod.ext rfl hcolumn.symm
    have hlineage := comesFrom_of_carries hcarries
    rwa [hq] at hlineage

theorem ColumnsCarried.connected (h : ColumnsCarried parse effects g) (hv : g.Valid)
    (hacyclic : Closure.Acyclic g.Feeds) {p q : NodeColumn} (hp : p.1 ∈ g.nodes.keys)
    {impact : ColumnLineage}
    (himpact : trace_column_impact parse effects g p.1 p.2 observed = .ok impact)
    (hpath : ReflTransGen (Kept g p.2) p.1 q.1) (hcolumn : q.2 = p.2) :
    ReflTransGen impact.Joins p q := by
  obtain ⟨impact', himpact', -, hedges⟩ :=
    trace_column_impact_report effects observed hv hacyclic hp p.2
  rw [himpact, Except.ok.injEq] at himpact'
  subst himpact'
  have hq : q = (q.1, p.2) := Prod.ext rfl hcolumn
  rw [hq]
  generalize q.1 = n at hpath
  induction hpath with
  | refl => exact .refl
  | @tail m n hpath hstep ih =>
      have hm := (h.reaches_iff hv hacyclic hp (q := (m, p.2))).mpr ⟨rfl, hpath⟩
      have hn := (h.reaches_iff hv hacyclic hp (q := (n, p.2))).mpr ⟨rfl, hpath.tail hstep⟩
      exact ih.tail ⟨⟨m, p.2, n, p.2, .PASSTHROUGH⟩,
        (hedges _).mpr ⟨hstep.1, rfl, rfl, hm, hn⟩, rfl, rfl⟩

/-! ## The law, exactly -/

/-- On an acyclic graph the two traces are inverse, with edges to all that
is impacted, exactly when columns are carried along the frame inputs. -/
theorem column_impact_inverse_iff (hv : g.Valid) (hacyclic : Closure.Acyclic g.Feeds) :
    ImpactInverse parse effects g observed ↔ ColumnsCarried parse effects g := by
  refine ⟨fun h => h.columnsCarried hv hacyclic, fun h => ⟨?_, ?_⟩⟩
  · intro p q hp hq
    rw [h.inImpact_iff hv hacyclic hp, h.inLineage_iff hv hacyclic hq]
  · intro p hp impact himpact entry hentry himpacted hne
    have hmem : InImpact parse effects g observed p entry.key :=
      ⟨impact, himpact, entry, hentry, himpacted, rfl⟩
    obtain ⟨hcolumn, hpath⟩ := (h.inImpact_iff hv hacyclic hp).mp hmem
    have hjoins := h.connected hv hacyclic hp himpact hpath hcolumn
    exact (Relation.reflTransGen_iff_eq_or_transGen.mp hjoins).resolve_left hne

/-! ## Examples -/

/-- The effects that the catalog declares for the nodes of the examples. -/
def load_effects (type : String) : Option ColumnEffectKind :=
  if type = "data.load_csv" then some .SOURCE
  else if type = "clean.filter_rows" then some .PASSTHROUGH
  else none

/-- What `ast.parse` makes of the expression of the example. -/
def parse_double (expr : String) : Option PyExpr :=
  if expr = "revenue * 2" then
    some (.other [.other [.name "revenue", .other [], .other []]])
  else none

def load_node : Node Empty :=
  { id := "load", type := "data.load_csv", ports := [⟨"o", "frame", .OUT, "DataFrame", .ONE, none⟩] }

/-- A file is loaded and given to one more node. -/
def loaded_into (node : Node Empty) : Graph Empty where
  nodes := (Dict.empty.set "load" load_node).set node.id node
  edges := Dict.empty.set "e" { id := "e", source := ⟨"load", "o"⟩, target := ⟨node.id, "i"⟩ }

def frame_in : Port := ⟨"i", "frame", .IN, "DataFrame", .ONE, none⟩

def double_node : Node Empty where
  id := "double"
  type := DERIVE_COLUMN
  ports := [frame_in]
  params := [{
    name := "columns", type_token := "list"
    value := .sequence [.mapping [("name", .str "twice"), ("expr", .str "revenue * 2")]] }]

def filter_node : Node Empty := { id := "filter", type := "clean.filter_rows", ports := [frame_in] }

theorem loaded_into_feeds {node : Node Empty} {a b : String} :
    (loaded_into node).Feeds a b ↔ a = "load" ∧ b = node.id := by
  simp [Graph.Feeds, Graph.links, loaded_into, Dict.values, Dict.set, Dict.setL, Dict.empty]

theorem loaded_into_acyclic {node : Node Empty} (hne : node.id ≠ "load") :
    Closure.Acyclic (loaded_into node).Feeds := by
  apply Closure.acyclic_of_rank fun id => if id = "load" then 0 else 1
  intro a b h
  obtain ⟨rfl, rfl⟩ := loaded_into_feeds.mp h
  simp [hne]

/-- The impact of `revenue` on what is derived from it is reported, but no
edge leads there; and `twice` at the file is said to be impacted too. -/
theorem derived_breaks_inverse :
    (loaded_into double_node).Valid ∧ Closure.Acyclic (loaded_into double_node).Feeds ∧
      (∀ id node column, (loaded_into double_node).nodes.get? id = some node →
        (resolve_column parse_double load_effects (loaded_into double_node) node column).isSome) ∧
      ¬ ImpactInverse parse_double load_effects (loaded_into double_node) none := by
  have hv : (loaded_into double_node).Valid := Graph.validate_structure_eq_ok.mp rfl
  have hacyclic : Closure.Acyclic (loaded_into double_node).Feeds := loaded_into_acyclic (by decide)
  refine ⟨hv, hacyclic, ?_, fun h => ?_⟩
  · intro id node column hget
    have hmem := (Dict.mem_entries_iff _).mpr hget
    have hentries : (loaded_into double_node).nodes.entries =
        [("load", load_node), ("double", double_node)] := rfl
    rw [hentries, List.mem_cons, List.mem_singleton] at hmem
    rcases hmem with hmem | hmem
    · cases hmem
      rfl
    · cases hmem
      rw [resolve_column, if_neg (by decide), if_pos (by decide)]
      split
      · rfl
      · rfl
  · have hname := h.own hv hacyclic (loaded_into_feeds.mpr ⟨rfl, rfl⟩)
      (show (loaded_into double_node).nodes.get? "double" = some double_node from rfl) rfl
      List.mem_cons_self (show _ = some "twice" from rfl)
      (show "revenue" ∈ _ from List.mem_cons_self)
    exact absurd hname (by decide)

/-- A filter passes every column on. -/
theorem filter_keeps_inverse :
    ImpactInverse parse_double load_effects (loaded_into filter_node) none := by
  apply (column_impact_inverse_iff (Graph.validate_structure_eq_ok.mp rfl)
    (loaded_into_acyclic (by decide))).mpr
  refine ⟨?_, ?_⟩
  · intro m n node c hfeeds hnode _
    obtain ⟨rfl, rfl⟩ := loaded_into_feeds.mp hfeeds
    refine .single ⟨filter_node, .PASSTHROUGH, [c], rfl, ?_, by decide, List.mem_singleton_self c, rfl⟩
    rfl
  · intro m n node spec name hfeeds hnode htype
    obtain ⟨rfl, rfl⟩ := loaded_into_feeds.mp hfeeds
    cases hnode
    exact absurd htype (by decide)

end EmergentFlow
