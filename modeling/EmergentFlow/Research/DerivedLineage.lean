import EmergentFlow.Clean.Derive
import EmergentFlow.Research.ImpactInverse

/-!
# Research — DerivedLineage

The lineage of derived columns against what their expressions read when
`derive_column` applies its specs in order. An expression that names the column
of an earlier spec reads that column; the trace looks for it in the input frame.
-/

namespace EmergentFlow

open Relation (ReflTransGen)

variable {Sub : Type}

section Reference

variable (parse : String → Option PyExpr) (effects : String → Option ColumnEffectKind)
  (g : Graph Sub)

/-! ## Runs -/

/-- The columns that the frames of a run have: those of a derive node are what
`derive_column` makes of its input frame. -/
def DeriveRun (columns : String → List String) : Prop :=
  ∀ id node, g.nodes.get? id = some node → node.type = DERIVE_COLUMN →
    ∃ pred ev, frame_predecessor g node = some pred ∧
      derive_column parse ev node.derive_specs (columns pred) = .ok (columns id)

/-! ## What is read -/

/-- Column `p` is made by `spec` of a derive node, after the specs `pre`. -/
structure MadeBy (p : NodeColumn) (node : Node Sub) (pre : List ParamValue) (spec : ParamValue) :
    Prop where
  found : g.nodes.get? p.1 = some node
  derive : node.type = DERIVE_COLUMN
  place : ∃ post, node.derive_specs = pre ++ spec :: post
  name : spec.derived_name = some p.2

/-- The expression of column `p` names the column `r` of an earlier spec. -/
def ReadsEarlier (p : NodeColumn) (r : String) : Prop :=
  ∃ node pre spec, MadeBy g p node pre spec ∧ r ∈ spec.reads parse ∧
    ∃ earlier ∈ pre, earlier.derived_name = some r

/-- Column `p` is carried: its node, which makes no column of this name, says that
it takes it from `q`. -/
def Carried (p q : NodeColumn) : Prop :=
  ComesFrom parse effects g p q ∧ ¬ ∃ node pre spec, MadeBy g p node pre spec

/-- The value of column `q` is read to make that of `p`. A carried column that is
not in the input frame was made by the node in its own way. -/
inductive ReadsFrom (columns : String → List String) : NodeColumn → NodeColumn → Prop
  | earlier {p : NodeColumn} {r : String} : ReadsEarlier parse g p r → ReadsFrom columns p (p.1, r)
  | input {p : NodeColumn} {r pred : String} {node : Node Sub} {pre : List ParamValue}
      {spec : ParamValue} : MadeBy g p node pre spec → r ∈ spec.reads parse →
      (∀ earlier ∈ pre, earlier.derived_name ≠ some r) →
      frame_predecessor g node = some pred → ReadsFrom columns p (pred, r)
  | carried {p q : NodeColumn} : Carried parse effects g p q → q.2 ∈ columns q.1 →
      ReadsFrom columns p q

/-! ## The law -/

/-- A report that has exactly the columns that are read, and an edge for each time
one is. -/
structure ExactLineage (columns : String → List String) (p : NodeColumn)
    (lineage : ColumnLineage) : Prop where
  ancestors : ∀ q, (∃ entry ∈ lineage.nodes, entry.key = q) ↔
    ReflTransGen (ReadsFrom parse effects g columns) p q
  edges : ∀ a b, lineage.Joins b a ↔
    ReflTransGen (ReadsFrom parse effects g columns) p a ∧ ReadsFrom parse effects g columns a b

/-- Nothing that is read for column `p` is made in two steps at one node: no
expression names the column of an earlier spec, and what other nodes carry was in
their input. -/
structure OneStep (columns : String → List String) (p : NodeColumn) : Prop where
  specs : ∀ a, ReflTransGen (ReadsFrom parse effects g columns) p a →
    ¬ ∃ r, ReadsEarlier parse g a r
  carried : ∀ a b, ReflTransGen (ReadsFrom parse effects g columns) p a →
    Carried parse effects g a b → b.2 ∈ columns b.1

/-- When the lineage of a derived column is right. -/
structure DerivedLineageLaw (columns : String → List String) (observed : Observed)
    (p : NodeColumn) (lineage : ColumnLineage) : Prop where
  reported : trace_column_lineage parse effects g p.1 p.2 observed = .ok lineage
  exact : ExactLineage parse effects g columns p lineage ↔ OneStep parse effects g columns p
  ancestors : (∀ q, (∃ entry ∈ lineage.nodes, entry.key = q) ↔
    ReflTransGen (ReadsFrom parse effects g columns) p q) ↔ OneStep parse effects g columns p
  /-- No edge comes from a column that does not exist. -/
  existing : (∀ a b, lineage.Joins b a → b.2 ∈ columns b.1) ↔ OneStep parse effects g columns p

end Reference

variable {parse : String → Option PyExpr} {effects : String → Option ColumnEffectKind}
  {g : Graph Sub} {columns : String → List String}

/-- The trace takes column `p` to come from one that does not exist. -/
def Invents (parse : String → Option PyExpr) (effects : String → Option ColumnEffectKind)
    (g : Graph Sub) (columns : String → List String) (p q : NodeColumn) : Prop :=
  ComesFrom parse effects g p q ∧ q.2 ∉ columns q.1

/-! ## One node of a run -/

section Run

variable {p q : NodeColumn} {node : Node Sub}
  {pre : List ParamValue} {spec : ParamValue}

theorem MadeBy.derives (hran : DeriveRun parse g columns) (h : MadeBy g p node pre spec) :
    ∃ pred, frame_predecessor g node = some pred ∧
      Derives parse node.derive_specs (columns pred) (columns p.1) := by
  obtain ⟨pred, ev, hpred, hderive⟩ := hran p.1 node h.found h.derive
  exact ⟨pred, hpred, derive_column_spec hderive⟩

/-- A column that a spec makes comes from what the spec reads. -/
theorem MadeBy.comesFrom_iff (hran : DeriveRun parse g columns) (h : MadeBy g p node pre spec) :
    ComesFrom parse effects g p q ↔
      frame_predecessor g node = some q.1 ∧ q.2 ∈ spec.reads parse := by
  obtain ⟨pred, hpred, hderives⟩ := h.derives hran
  obtain ⟨post, hplace⟩ := h.place
  have hmem : spec ∈ node.derive_specs := by
    rw [hplace]
    exact List.mem_append_right _ List.mem_cons_self
  have hresolve : resolve_column parse effects g node p.2 =
      some (.DERIVED, derive_spec_source_cols parse spec) := by
    have hselect : node.type ≠ SELECT_COLUMNS := by
      rw [h.derive]
      decide
    rw [resolve_column, if_neg hselect, if_pos h.derive, hderives.find? hplace h.name]
  rw [← hderives.traced spec hmem]
  constructor
  · rintro ⟨node', role, cols, hnode, hres, -, hcols, hq⟩
    rw [h.found, Option.some.injEq] at hnode
    subst hnode
    rw [hresolve, Option.some.injEq, Prod.mk.injEq] at hres
    exact ⟨hq, hres.2 ▸ hcols⟩
  · rintro ⟨hq, hcols⟩
    refine ⟨node, _, _, h.found, hresolve, ?_, hcols, hq⟩
    intro hrole
    cases hrole

/-- What is read from a column that exists exists. -/
theorem ReadsFrom.exists (hran : DeriveRun parse g columns)
    (h : ReadsFrom parse effects g columns p q) : q.2 ∈ columns q.1 := by
  cases h with
  | earlier h =>
      obtain ⟨node, pre, spec, hmade, -, earlier, hmem, hname⟩ := h
      obtain ⟨pred, -, hderives⟩ := hmade.derives hran
      obtain ⟨post, hplace⟩ := hmade.place
      refine (hderives.columns _).mpr (.inr ⟨earlier, ?_, hname⟩)
      rw [hplace]
      exact List.mem_append_left _ hmem
  | input hmade hread hnot hpred =>
      obtain ⟨pred, hpred', hderives⟩ := hmade.derives hran
      obtain ⟨post, hplace⟩ := hmade.place
      rw [hpred, Option.some.injEq] at hpred'
      subst hpred'
      rcases hderives.available _ _ _ hplace _ hread with hin | ⟨earlier, hmem, hname⟩
      · exact hin
      · exact absurd hname (hnot earlier hmem)
  | carried _ hexists => exact hexists

/-- An expression that names the column of an earlier spec sends the trace to one
that does not exist. -/
theorem ReadsEarlier.invents (hran : DeriveRun parse g columns) {r : String}
    (h : ReadsEarlier parse g p r) : ∃ q, Invents parse effects g columns p q := by
  obtain ⟨node, pre, spec, hmade, hread, earlier, hmem, hname⟩ := h
  obtain ⟨pred, hpred, hderives⟩ := hmade.derives hran
  obtain ⟨post, hplace⟩ := hmade.place
  refine ⟨(pred, r), (hmade.comesFrom_iff hran).mpr ⟨hpred, hread⟩, ?_⟩
  refine hderives.fresh earlier ?_ r hname
  rw [hplace]
  exact List.mem_append_left _ hmem

/-- Where nothing is invented, the trace follows what is read. -/
theorem reads_iff_comesFrom (hran : DeriveRun parse g columns)
    (hnone : ∀ b, ¬ Invents parse effects g columns p b) :
    ReadsFrom parse effects g columns p q ↔ ComesFrom parse effects g p q := by
  have hearlier : ∀ r, ¬ ReadsEarlier parse g p r := by
    intro r h
    have hinvents : ∃ b, Invents parse effects g columns p b := h.invents hran
    obtain ⟨b, hb⟩ := hinvents
    exact hnone b hb
  have hexists : ∀ {b}, ComesFrom parse effects g p b → b.2 ∈ columns b.1 := fun hcomes =>
    not_not.mp fun hnot => hnone _ ⟨hcomes, hnot⟩
  constructor
  · intro h
    cases h with
    | earlier h => exact absurd h (hearlier _)
    | input hmade hread _ hpred => exact (hmade.comesFrom_iff hran).mpr ⟨hpred, hread⟩
    | carried h _ => exact h.1
  · intro hcomes
    by_cases hmade : ∃ node pre spec, MadeBy g p node pre spec
    · obtain ⟨node, pre, spec, hmade⟩ := hmade
      obtain ⟨hpred, hread⟩ := (hmade.comesFrom_iff hran).mp hcomes
      refine .input hmade hread (fun earlier hmem hname => ?_) hpred
      exact hearlier _ ⟨node, pre, spec, hmade, hread, earlier, hmem, hname⟩
    · exact .carried ⟨hcomes, hmade⟩ (hexists hcomes)

/-- What is invented is one of the two ways of making a column in two steps. -/
theorem invents_iff (hran : DeriveRun parse g columns) :
    (∃ b, Invents parse effects g columns p b) ↔ (∃ r, ReadsEarlier parse g p r) ∨
      ∃ b, Carried parse effects g p b ∧ b.2 ∉ columns b.1 := by
  constructor
  · rintro ⟨b, hcomes, hnot⟩
    by_cases hmade : ∃ node pre spec, MadeBy g p node pre spec
    · obtain ⟨node, pre, spec, hmade⟩ := hmade
      obtain ⟨hpred, hread⟩ := (hmade.comesFrom_iff hran).mp hcomes
      by_cases hearlier : ∃ earlier ∈ pre, earlier.derived_name = some b.2
      · exact .inl ⟨b.2, node, pre, spec, hmade, hread, hearlier⟩
      · have hreads : ReadsFrom parse effects g columns p b :=
          .input hmade hread (fun earlier hmem hname => hearlier ⟨earlier, hmem, hname⟩) hpred
        exact absurd (hreads.exists hran) hnot
    · exact .inr ⟨b, ⟨hcomes, hmade⟩, hnot⟩
  · rintro (⟨r, h⟩ | ⟨b, h, hnot⟩)
    · exact h.invents hran
    · exact ⟨b, h.1, hnot⟩

end Run

/-! ## All that is read -/

section Law

variable {p : NodeColumn}

theorem oneStep_iff_reads (hran : DeriveRun parse g columns) :
    OneStep parse effects g columns p ↔ ∀ a, ReflTransGen (ReadsFrom parse effects g columns) p a →
      ∀ b, ¬ Invents parse effects g columns a b := by
  have hnone : ∀ a, (∀ b, ¬ Invents parse effects g columns a b) ↔
      (¬ ∃ r, ReadsEarlier parse g a r) ∧
        ∀ b, Carried parse effects g a b → b.2 ∈ columns b.1 := by
    intro a
    rw [← not_exists, invents_iff hran, not_or]
    refine and_congr Iff.rfl ⟨fun h b hb => ?_, fun h => ?_⟩
    · exact not_not.mp fun hnot => h ⟨b, hb, hnot⟩
    · rintro ⟨b, hb, hnot⟩
      exact hnot (h b hb)
  constructor
  · exact fun h a ha => (hnone a).mpr ⟨h.specs a ha, fun b => h.carried a b ha⟩
  · exact fun h => ⟨fun a ha => ((hnone a).mp (h a ha)).1,
      fun a b ha => ((hnone a).mp (h a ha)).2 b⟩

/-- The same with what the trace follows. -/
theorem oneStep_iff_comesFrom (hran : DeriveRun parse g columns) :
    OneStep parse effects g columns p ↔ ∀ a, ReflTransGen (ComesFrom parse effects g) p a →
      ∀ b, ¬ Invents parse effects g columns a b := by
  rw [oneStep_iff_reads hran]
  constructor
  · intro h a ha
    refine h a ((Closure.reflTransGen_congr (fun b hb c => ?_) a).mpr ha)
    exact reads_iff_comesFrom hran (h b hb)
  · intro h a ha
    refine h a ((Closure.reflTransGen_congr (fun b hb c => ?_) a).mpr ha)
    exact (reads_iff_comesFrom hran (h b hb)).symm

/-- All that is read for a column that exists exists. -/
theorem exists_of_reads (hran : DeriveRun parse g columns) {q : NodeColumn} (hp : p.2 ∈ columns p.1)
    (h : ReflTransGen (ReadsFrom parse effects g columns) p q) : q.2 ∈ columns q.1 := by
  cases h with
  | refl => exact hp
  | tail _ hstep => exact hstep.exists hran

/-- A column that a spec makes exists. -/
theorem MadeBy.exists {node : Node Sub} {pre : List ParamValue} {spec : ParamValue}
    (hran : DeriveRun parse g columns) (h : MadeBy g p node pre spec) : p.2 ∈ columns p.1 := by
  obtain ⟨pred, -, hderives⟩ := h.derives hran
  obtain ⟨post, hplace⟩ := h.place
  refine (hderives.columns _).mpr (.inr ⟨spec, ?_, h.name⟩)
  rw [hplace]
  exact List.mem_append_right _ List.mem_cons_self

variable {lineage : ColumnLineage}

/-- Columns in one step are traced exactly. -/
theorem OneStep.exact (hran : DeriveRun parse g columns)
    (hentries : ∀ q, (∃ entry ∈ lineage.nodes, entry.key = q) ↔
      ReflTransGen (ComesFrom parse effects g) p q)
    (hjoins : ∀ a b, lineage.Joins b a ↔
      ReflTransGen (ComesFrom parse effects g) p a ∧ ComesFrom parse effects g a b)
    (h : OneStep parse effects g columns p) : ExactLineage parse effects g columns p lineage := by
  have hsteps := (oneStep_iff_reads hran).mp h
  have hreach := Closure.reflTransGen_congr fun a ha b =>
    reads_iff_comesFrom (q := b) hran (hsteps a ha)
  refine ⟨fun q => by rw [hentries, hreach], fun a b => ?_⟩
  rw [hjoins, ← hreach]
  exact and_congr_right fun ha => (reads_iff_comesFrom hran (hsteps a ha)).symm

/-- Only columns in one step are traced exactly: what is invented is reported. -/
theorem oneStep_of_ancestors (hran : DeriveRun parse g columns) (hp : p.2 ∈ columns p.1)
    (hentries : ∀ q, (∃ entry ∈ lineage.nodes, entry.key = q) ↔
      ReflTransGen (ComesFrom parse effects g) p q)
    (h : ∀ q, (∃ entry ∈ lineage.nodes, entry.key = q) ↔
      ReflTransGen (ReadsFrom parse effects g columns) p q) :
    OneStep parse effects g columns p := by
  refine (oneStep_iff_comesFrom hran).mpr fun a ha b hb => hb.2 ?_
  exact exists_of_reads hran hp ((h b).mp ((hentries b).mpr (ha.tail hb.1)))

/-- The lineage of a derived column is exact if and only if all that is read for
it is made in one step. -/
theorem derived_lineage_law (hv : g.Valid) (hacyclic : Closure.Acyclic g.Feeds)
    (hran : DeriveRun parse g columns) (observed : Observed)
    (hmade : ∃ node pre spec, MadeBy g p node pre spec) :
    ∃ lineage, DerivedLineageLaw parse effects g columns observed p lineage := by
  obtain ⟨node, pre, spec, hmade⟩ := hmade
  have hp : p.1 ∈ g.nodes.keys := (Dict.mem_keys_iff _).mpr ⟨node, hmade.found⟩
  have hreport : ∃ lineage, trace_column_lineage parse effects g p.1 p.2 observed = .ok lineage ∧
      ∀ q, (∃ entry ∈ lineage.nodes, entry.key = q) ↔
        ReflTransGen (ComesFrom parse effects g) p q :=
    trace_column_lineage_entries observed hv hacyclic hp p.2
  obtain ⟨lineage, htrace, hentries⟩ := hreport
  have hjoins := trace_column_lineage_joins hv hacyclic hp htrace
  have hexact : OneStep parse effects g columns p →
      ExactLineage parse effects g columns p lineage := fun h => h.exact hran hentries hjoins
  have hancestors := oneStep_of_ancestors hran (hmade.exists hran) hentries
  refine ⟨lineage, htrace, ⟨fun h => hancestors h.ancestors, hexact⟩,
    ⟨hancestors, fun h => (hexact h).ancestors⟩, ?_⟩
  rw [oneStep_iff_comesFrom hran]
  constructor
  · exact fun h a ha b hb => hb.2 (h a b ((hjoins a b).mpr ⟨ha, hb.1⟩))
  · intro h a b hjoin
    obtain ⟨ha, hb⟩ := (hjoins a b).mp hjoin
    exact not_not.mp fun hnot => h a ha b ⟨hb, hnot⟩

end Law

/-! ## A feature in two steps -/

def parse_ratio (expr : String) : Option PyExpr :=
  if expr = "revenue / cost" then some (.other [.name "revenue", .name "cost"])
  else if expr = "ratio * 2" then some (.other [.name "ratio", .other []])
  else none

def ratio_spec : ParamValue := .mapping [("name", .str "ratio"), ("expr", .str "revenue / cost")]

def feature_spec : ParamValue := .mapping [("name", .str "feature"), ("expr", .str "ratio * 2")]

def two_step_node : Node Empty where
  id := "derive"
  type := DERIVE_COLUMN
  ports := [frame_in]
  params := [{
    name := "columns", type_token := "list", value := .sequence [ratio_spec, feature_spec] }]

/-- The frames of a run. -/
def two_step_columns (id : String) : List String :=
  if id = "load" then ["revenue", "cost"] else ["revenue", "cost", "ratio", "feature"]

def any_evaluator : Evaluator := ⟨fun _ => true, fun _ _ => true, fun _ _ => true⟩

theorem two_step_ran : DeriveRun parse_ratio (loaded_into two_step_node) two_step_columns := by
  intro id node hget htype
  have hmem := (Dict.mem_entries_iff _).mpr hget
  have hentries : (loaded_into two_step_node).nodes.entries =
      [("load", load_node), ("derive", two_step_node)] := rfl
  rw [hentries, List.mem_cons, List.mem_singleton] at hmem
  rcases hmem with hmem | hmem
  · cases hmem
    exact absurd htype (by decide)
  · cases hmem
    exact ⟨"load", any_evaluator, rfl, by decide +kernel⟩

theorem two_step_resolves (id : String) (node : Node Empty) (column : String)
    (hget : (loaded_into two_step_node).nodes.get? id = some node) :
    (resolve_column parse_ratio load_effects (loaded_into two_step_node) node column).isSome := by
  have hmem := (Dict.mem_entries_iff _).mpr hget
  have hentries : (loaded_into two_step_node).nodes.entries =
      [("load", load_node), ("derive", two_step_node)] := rfl
  rw [hentries, List.mem_cons, List.mem_singleton] at hmem
  rcases hmem with hmem | hmem
  · cases hmem
    rfl
  · cases hmem
    rw [resolve_column, if_neg (by decide), if_pos (by decide)]
    split
    · rfl
    · rfl

theorem feature_made : MadeBy (loaded_into two_step_node) ("derive", "feature") two_step_node
    [ratio_spec] feature_spec := ⟨rfl, rfl, ⟨[], rfl⟩, rfl⟩

theorem derived_lineage_law_feature : ∃ lineage, DerivedLineageLaw parse_ratio load_effects
    (loaded_into two_step_node) two_step_columns none ("derive", "feature") lineage :=
  derived_lineage_law (Graph.validate_structure_eq_ok.mp rfl) (loaded_into_acyclic (by decide))
    two_step_ran none ⟨_, _, _, feature_made⟩

/-- The trace of `feature` looks for `ratio` in the file, and misses what `ratio` is
made of. -/
theorem two_steps_lose_lineage :
    ¬ ∀ (parse : String → Option PyExpr) (effects : String → Option ColumnEffectKind)
        (g : Graph Empty) (columns : String → List String) (p : NodeColumn),
      g.Valid → Closure.Acyclic g.Feeds →
      (∀ id node column, g.nodes.get? id = some node →
        (resolve_column parse effects g node column).isSome) →
      DeriveRun parse g columns → (∃ node pre spec, MadeBy g p node pre spec) →
      ∃ lineage, trace_column_lineage parse effects g p.1 p.2 none = .ok lineage ∧
        ExactLineage parse effects g columns p lineage := by
  intro hclaim
  have hv : (loaded_into two_step_node).Valid := Graph.validate_structure_eq_ok.mp rfl
  have hacyclic : Closure.Acyclic (loaded_into two_step_node).Feeds :=
    loaded_into_acyclic (by decide)
  obtain ⟨lineage, htrace, hexact⟩ := hclaim parse_ratio load_effects (loaded_into two_step_node)
    two_step_columns ("derive", "feature") hv hacyclic two_step_resolves two_step_ran
    ⟨_, _, _, feature_made⟩
  obtain ⟨lineage', htrace', hentries⟩ := trace_column_lineage_entries none hv hacyclic
    (show "derive" ∈ (loaded_into two_step_node).nodes.keys from by decide) "feature"
  rw [htrace, Except.ok.injEq] at htrace'
  subst htrace'
  have hstep := oneStep_of_ancestors two_step_ran
    (show "feature" ∈ two_step_columns "derive" from by decide) hentries hexact.ancestors
  exact hstep.specs _ .refl ⟨"ratio", _, _, _, feature_made, by decide +kernel, ratio_spec,
    List.mem_cons_self, rfl⟩

end EmergentFlow
