import EmergentFlow.Validity.Rules

/-!
# Validity — RunnerLaw

On which graphs the rules of the pack come to an end. Two of them can break off,
each only where it applies; what the others read is always there.
-/

namespace EmergentFlow

variable {Sub : Type}

theorem Graph.mem_of_type {g : Graph Sub} {types : List String} {node : Node Sub} :
    node ∈ g.of_type types ↔ node ∈ g.nodes.values ∧ node.type ∈ types := by
  simp only [Graph.of_type, List.mem_insertionSort, List.mem_filter, decide_eq_true_eq]

/-- Where there is a split, the strategy of every imputation has a hash. -/
def StrategiesHash (g : Graph Sub) : Prop :=
  (∃ split ∈ g.nodes.values, split.type ∈ SPLIT_NODES) →
    ∀ node ∈ g.nodes.values, node.type = "clean.impute_missing" →
      node.impute_strategy.hashable = true

/-- Where a node trains on a named target, the parser leaves with a `SyntaxError`
at worst on the expressions of derived columns. -/
def ExpressionsParse (ast_parse : String → ParsedExpr) (g : Graph Sub) : Prop :=
  (∃ trainer ∈ g.nodes.values, trainer.type ∈ SUPERVISED_TARGET_NODES ∧
      trainer.target_column ≠ none) →
    ∀ node ∈ g.nodes.values, node.type = DERIVE_COLUMN → ∀ spec ∈ node.named_specs,
      ∀ text ∈ spec.2.expressions, ∀ exception, ast_parse text ≠ .raised exception

section Rules

variable {pack : RulePack} {n : Nat} {g : Graph (Nested n)}

/-! ## Imputation -/

theorem imputation_findings_returns_iff {node : Node (Nested n)} :
    (∃ findings, imputation_findings pack n g node = .ok findings) ↔
      node.impute_strategy.hashable = true := by
  simp only [imputation_findings, Checks.then_eq_ok, Checks.guard_eq_ok]
  constructor
  · rintro ⟨_, h, -⟩
    exact h
  · intro h
    exact ⟨_, h, rfl⟩

theorem has_splits_iff :
    has_splits g = true ↔ ∃ split ∈ g.nodes.values, split.type ∈ SPLIT_NODES := by
  simp only [has_splits, List.any_eq_true, decide_eq_true_eq]

theorem GlobalImputationBeforeSplit_returns_iff :
    (∃ findings, GlobalImputationBeforeSplit pack n g = .ok findings) ↔ StrategiesHash g := by
  rw [GlobalImputationBeforeSplit, StrategiesHash, ← has_splits_iff]
  by_cases hsplits : has_splits g = true
  · rw [if_pos hsplits, Checks.bind_pure_returns_iff, Checks.mapM_exists_iff]
    simp only [imputation_findings_returns_iff, Graph.mem_of_type, List.mem_singleton, and_imp,
      hsplits, true_implies]
  · rw [if_neg hsplits]
    exact ⟨fun _ h => absurd h hsplits, fun _ => ⟨[], rfl⟩⟩

/-! ## Derived features -/

theorem referenced_columns_returns_iff {ast_parse : String → ParsedExpr} {text : String} :
    (∃ names, referenced_columns ast_parse text = .ok names) ↔
      ∀ exception, ast_parse text ≠ .raised exception := by
  rw [referenced_columns]
  cases ast_parse text <;> simp

theorem derive_columns_returns_iff {ast_parse : String → ParsedExpr} {node : Node Sub} :
    (∃ names, derive_columns ast_parse node = .ok names) ↔ ∀ spec ∈ node.named_specs,
      ∀ text ∈ spec.2.expressions, ∀ exception, ast_parse text ≠ .raised exception := by
  rw [derive_columns, Checks.bind_pure_returns_iff, Checks.mapM_exists_iff]
  simp only [Checks.bind_pure_returns_iff, Checks.mapM_exists_iff, referenced_columns_returns_iff]

/-- The traces of the rule return. -/
theorem taint_finding_returns (hv : g.Valid) {node : Node (Nested n)} (hnode : node ∈ g.nodes.values)
    (derived : List String) (supervised : String × Node (Nested n)) :
    ∃ finding, taint_finding pack n g node derived supervised = .ok finding := by
  have htrace : ∀ name ∈ derived,
      ∃ flag, is_tainted pack n g node.id supervised.1 name = .ok flag := by
    intro name _
    obtain ⟨id, hid⟩ := (Dict.mem_values_iff _).mp hnode
    have hkey : node.id ∈ g.nodes.keys := by
      rw [hv.node_id hid]
      exact (Dict.mem_keys_iff _).mpr ⟨node, hid⟩
    obtain ⟨trace, h⟩ : ∃ trace, trace_column_lineage pack.tree pack.effects g node.id name none
        = .ok trace := trace_column_lineage_returns none hv hkey name
    exact ⟨trace.has_target supervised.1, by rw [is_tainted, h]; rfl⟩
  rw [taint_finding]
  split
  · rw [Checks.bind_pure_returns_iff]
    exact Checks.mapM_exists htrace
  · exact ⟨none, rfl⟩

theorem target_findings_returns_iff (hv : g.Valid) {node : Node (Nested n)}
    (hnode : node ∈ g.nodes.values) :
    (∃ finding, target_findings pack n g node = .ok finding) ↔ ∀ spec ∈ node.named_specs,
      ∀ text ∈ spec.2.expressions, ∀ exception, pack.ast_parse text ≠ .raised exception := by
  rw [← derive_columns_returns_iff]
  constructor
  · rintro ⟨_, h⟩
    obtain ⟨derived, hderived, -⟩ := Checks.bind_eq_ok.mp h
    exact ⟨derived, hderived⟩
  · rintro ⟨derived, hderived⟩
    have hreturns : ∀ supervised ∈ g.supervised,
        ∃ finding, taint_finding pack n g node derived supervised = .ok finding :=
      fun supervised _ => taint_finding_returns hv hnode derived supervised
    obtain ⟨finding, hfinding⟩ := Checks.findSomeM_exists hreturns
    exact ⟨finding, Checks.bind_eq_ok.mpr ⟨derived, hderived, hfinding⟩⟩

theorem supervised_isEmpty_iff : g.supervised.isEmpty = false ↔ ∃ trainer ∈ g.nodes.values,
    trainer.type ∈ SUPERVISED_TARGET_NODES ∧ trainer.target_column ≠ none := by
  rw [List.isEmpty_eq_false_iff_exists_mem]
  simp only [Graph.supervised, List.mem_filterMap, Graph.mem_of_type, Option.map_eq_some_iff]
  constructor
  · rintro ⟨_, trainer, ⟨hmem, htype⟩, target, htarget, rfl⟩
    exact ⟨trainer, hmem, htype, by rw [htarget]; nofun⟩
  · rintro ⟨trainer, hmem, htype, htarget⟩
    obtain ⟨target, htarget⟩ := Option.ne_none_iff_exists'.mp htarget
    exact ⟨_, trainer, ⟨hmem, htype⟩, target, htarget, rfl⟩

theorem TargetDerivedFeature_returns_iff (hv : g.Valid) :
    (∃ findings, TargetDerivedFeature pack n g = .ok findings) ↔
      ExpressionsParse pack.ast_parse g := by
  rw [TargetDerivedFeature, ExpressionsParse, ← supervised_isEmpty_iff]
  cases hempty : g.supervised.isEmpty with
  | true => exact ⟨fun _ h => (by cases h), fun _ => ⟨[], rfl⟩⟩
  | false =>
      simp only [Bool.false_eq_true, if_false, true_implies]
      rw [Checks.bind_pure_returns_iff, Checks.mapM_exists_iff]
      simp only [Graph.mem_of_type, List.mem_singleton, and_imp]
      exact forall_congr' fun node => forall_congr' fun hnode => forall_congr' fun _ =>
        target_findings_returns_iff hv hnode

/-! ## The runner -/

/-- The pack returns exactly where these two rules do. -/
theorem run_validity_checks_returns_iff (hv : g.Valid) :
    (∃ findings, run_validity_checks pack n g = .ok findings) ↔
      StrategiesHash g ∧ ExpressionsParse pack.ast_parse g := by
  have himputation : (∃ findings, GlobalImputationBeforeSplit pack n g = .ok findings) ↔
      StrategiesHash g := GlobalImputationBeforeSplit_returns_iff
  rw [← himputation, ← TargetDerivedFeature_returns_iff hv]
  constructor
  · rintro ⟨_, h⟩
    obtain ⟨imputation, himputation, h⟩ := Checks.bind_eq_ok.mp h
    obtain ⟨features, hfeatures, -⟩ := Checks.bind_eq_ok.mp h
    exact ⟨⟨imputation, himputation⟩, ⟨features, hfeatures⟩⟩
  · rintro ⟨⟨imputation, himputation⟩, ⟨features, hfeatures⟩⟩
    exact ⟨_, Checks.bind_eq_ok.mpr
      ⟨imputation, himputation, Checks.bind_eq_ok.mpr ⟨features, hfeatures, rfl⟩⟩⟩

end Rules

end EmergentFlow
