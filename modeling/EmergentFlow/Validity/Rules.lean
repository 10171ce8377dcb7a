import EmergentFlow.Research.Lineage
import EmergentFlow.Validity.Skew

/-!
# Validity — Rules

The remaining rules of the pack (`validity/rules/leakage.py`, `temporal.py` and
`metrics.py`) and the runner over all of them (`validity/runner.py`).

Two rules can break off: one hashes the value of a param, one hands texts of the
graph to Python's parser and expects a `SyntaxError` at worst.
-/

namespace EmergentFlow

variable {Sub : Type}

/-! ## Rules about splits -/

/-- `WINDOWED_TRANSFORMS`. -/
def WINDOWED_TRANSFORMS : List String :=
  ["timeseries.lag_features", "timeseries.rolling_aggregate", "timeseries.ewma",
    "timeseries.time_weighted_aggregate"]

/-- `TEMPORAL_SIGNAL_NODES`. -/
def TEMPORAL_SIGNAL_NODES : List String :=
  WINDOWED_TRANSFORMS ++ ["timeseries.difference", "timeseries.seasonal_decompose",
    "timeseries.forecast_arima", "timeseries.forecast_ets", "recommend.temporal_split"]

/-- `WindowCrossesSplit`. -/
def WindowCrossesSplit (repr : String → String) : BeforeSplitRule where
  id := "window_crosses_split"
  severity := "warning"
  suspects := WINDOWED_TRANSFORMS
  message node_id type split_id :=
    "node " ++ repr node_id ++ " (" ++ type ++ ") computes a windowed feature across split node "
      ++ repr split_id ++ "; window neighbors include the held-out rows."

/-- The nodes of a type, by ascending id. -/
def Graph.of_type (g : Graph Sub) (types : List String) : List (Node Sub) :=
  (g.nodes.values.filter (·.type ∈ types)).insertionSort (·.id ≤ ·.id)

/-- `strategy == "temporal"`. -/
def Node.splits_by_time (node : Node Sub) : Bool :=
  (node.param_values.get? "strategy").bind ParamValue.as_str = some "temporal"

/-- `RandomSplitOnTemporalGraph`. -/
def RandomSplitOnTemporalGraph (repr : String → String) (g : Graph Sub) : List ValidityFinding :=
  if g.nodes.values.any (·.type ∈ TEMPORAL_SIGNAL_NODES) then
    ((g.of_type ["ml.train_test_split"]).filter (!·.splits_by_time)).map fun split => {
      rule_id := "random_split_on_temporal_graph"
      severity := "warning"
      message := "node " ++ repr split.id ++ " (ml.train_test_split) shuffles rows in a graph that "
        ++ "contains temporally ordered data; future rows can land in train. Set "
        ++ "strategy=\"temporal\" on the split node (or use recommend.temporal_split) for "
        ++ "temporal holdout."
      node_id := some split.id }
  else []

/-! ## Imputation -/

/-- `DATA_DERIVED_IMPUTE_STRATEGIES`. -/
def DATA_DERIVED_IMPUTE_STRATEGIES : List String := ["mean", "median", "most_frequent"]

/-- Does the value have a hash? -/
def ParamValue.hashable : ParamValue → Bool
  | .artifact_ref _ _ | .sequence _ | .mapping _ => false
  | _ => true

/-- `_node_params(node).get("strategy") or "mean"`. -/
def Node.impute_strategy (node : Node Sub) : ParamValue :=
  let strategy := (node.param_values.get? "strategy").getD .none
  if strategy.truthy then strategy else .str "mean"

/-- What `ast.parse` makes of an expression: a tree, or an exception, a
`SyntaxError` or another one. -/
inductive ParsedExpr where
  | parsed (tree : PyExpr)
  | syntax_error
  | raised (exception : String)

/-- What the rules read besides the graph: `repr` of a string, Python's parser,
the column effect that the definition of a node type declares, and the task of
an estimator, where the catalog has it. -/
structure RulePack where
  repr : String → String
  ast_parse : String → ParsedExpr
  effects : String → Option ColumnEffectKind
  task : String → Option String

section Rules

variable (pack : RulePack) (n : Nat) (g : Graph (Nested n))

/-- What `GlobalImputationBeforeSplit` says of one node. -/
def imputation_findings (node : Node (Nested n)) : Except CodegenError (List ValidityFinding) := do
  Checks.guard node.impute_strategy.hashable (.raised "TypeError")
  let strategy := (node.impute_strategy.as_str).filter (· ∈ DATA_DERIVED_IMPUTE_STRATEGIES)
  pure (strategy.toList.flatMap fun strategy =>
    ((split_ids g).filter (reaches n g node.id ·)).map fun split_id => {
      rule_id := "global_imputation_before_split"
      severity := "warning"
      message := "node " ++ pack.repr node.id ++ " (clean.impute_missing) imputes with data-derived "
        ++ "strategy " ++ pack.repr strategy ++ " upstream of split node " ++ pack.repr split_id
        ++ "; the imputation statistics include the held-out rows."
      node_id := some node.id
      related_node_ids := [split_id] })

/-- `GlobalImputationBeforeSplit`: a value that has no hash is not looked up. -/
def GlobalImputationBeforeSplit : Except CodegenError (List ValidityFinding) :=
  if has_splits g then do
    let findings ← (g.of_type ["clean.impute_missing"]).mapM (imputation_findings pack n g)
    pure findings.flatten
  else pure []

/-! ## Derived features -/

/-- `SUPERVISED_TARGET_NODES`. -/
def SUPERVISED_TARGET_NODES : List String :=
  ["ml.fit_estimator", "ml.train_classifier", "ml.train_regressor", "ml.train_random_forest",
    "ml.pipeline", "ml.cross_validate", "ml.grid_search"]

/-- `_referenced_columns`: only a `SyntaxError` is caught. -/
def referenced_columns (ast_parse : String → ParsedExpr) (expr : String) :
    Except CodegenError (List String) :=
  match ast_parse expr with
  | .parsed tree => .ok (tree.walk.filterMap PyExpr.id?)
  | .syntax_error => .ok []
  | .raised exception => .error (.raised exception)

/-- The expressions of a spec of a derived column. -/
def ParamValue.expressions (spec : ParamValue) : List String :=
  ((spec.field "expr").bind as_str).toList ++
    (items (spec.field "when")).filterMap fun branch => (branch.field "if").bind as_str

/-- The specs of a node that name their column. -/
def Node.named_specs (node : Node Sub) : List (String × ParamValue) :=
  node.derive_specs.filterMap fun spec =>
    (spec.derived_name.filter (· ≠ "")).map fun name => (name, spec)

/-- `_derive_columns`, without the references. -/
def derive_columns (ast_parse : String → ParsedExpr) (node : Node Sub) :
    Except CodegenError (List String) := do
  let specs ← node.named_specs.mapM fun p => do
    let referenced ← p.2.expressions.mapM (referenced_columns ast_parse)
    pure (p.1, referenced.flatten)
  pure ((specs.filter (·.2 ≠ [])).map Prod.fst)

/-- `_target_column`. -/
def Node.target_column (node : Node Sub) : Option String :=
  ((node.param_values.get? "target").bind ParamValue.as_str).filter (· ≠ "")

/-- The supervised nodes that name a target. -/
def Graph.supervised (g : Graph Sub) : List (String × Node Sub) :=
  (g.of_type SUPERVISED_TARGET_NODES).filterMap fun node => node.target_column.map (·, node)

/-- `_provenance_has_target`. -/
def ColumnLineage.has_target (trace : ColumnLineage) (target : String) : Bool :=
  trace.nodes.any fun entry => entry.column = target || entry.source_column = some target

/-- The exception a trace leaves with. -/
def LineageError.exception : LineageError → String
  | .unknown_node _ _ => "UnknownNodeError"
  | .missing_node _ => "KeyError"
  | .recursion => "RecursionError"

/-- The tree that the lineage sees; an expression that breaks the parser breaks
the rule off at its own node, if not here. -/
def RulePack.tree (pack : RulePack) (expr : String) : Option PyExpr :=
  match pack.ast_parse expr with
  | .parsed tree => some tree
  | _ => none

/-- Does the provenance of a derived column include the target? -/
def is_tainted (node_id target name : String) : Except CodegenError Bool := do
  let trace ← (trace_column_lineage pack.tree pack.effects g node_id name none).mapError
    fun e => .raised e.exception
  pure (trace.has_target target)

/-- The features of a supervised node are listed, and none of these is one. -/
def Node.excludes (node : Node Sub) (columns : List String) : Bool :=
  let features := ParamValue.items (node.param_values.get? "features")
  !features.isEmpty && columns.all fun name => name ∉ features.filterMap ParamValue.as_str

/-- What `TargetDerivedFeature` says of a node and one supervised node. -/
def taint_finding (node : Node (Nested n)) (derived : List String)
    (supervised : String × Node (Nested n)) : Except CodegenError (Option ValidityFinding) :=
  if reaches n g node.id supervised.2.id then do
    let flags ← derived.mapM (is_tainted pack n g node.id supervised.1)
    let tainted := ((derived.zip flags).filter (·.2)).map Prod.fst
    pure (if tainted.isEmpty || supervised.2.excludes tainted then none else some {
      rule_id := "target_derived_feature"
      severity := "warning"
      message := "node " ++ pack.repr node.id ++ " (clean.derive_column) derives a feature from "
        ++ "target column " ++ pack.repr supervised.1 ++ ", which is the target of supervised node "
        ++ pack.repr supervised.2.id ++ "; the derived feature leaks the answer."
      node_id := some node.id
      related_node_ids := [supervised.2.id] })
  else pure none

/-- What the rule says of a node: one supervised node is enough. -/
def target_findings (node : Node (Nested n)) : Except CodegenError (Option ValidityFinding) := do
  let derived ← derive_columns pack.ast_parse node
  g.supervised.findSomeM? (taint_finding pack n g node derived)

/-- `TargetDerivedFeature`. -/
def TargetDerivedFeature : Except CodegenError (List ValidityFinding) :=
  if g.supervised.isEmpty then pure []
  else do
    let findings ← (g.of_type [DERIVE_COLUMN]).mapM (target_findings pack n g)
    pure (findings.filterMap id)

/-! ## Rules about metrics -/

/-- `CLASSIFICATION_SCORING`. -/
def CLASSIFICATION_SCORING : List String :=
  ["accuracy", "balanced_accuracy", "precision", "recall", "f1", "f1_macro", "f1_micro",
    "f1_weighted", "precision_macro", "precision_micro", "recall_macro", "recall_micro", "roc_auc",
    "average_precision", "neg_log_loss", "top_k_accuracy"]

/-- `REGRESSION_SCORING`. -/
def REGRESSION_SCORING : List String :=
  ["r2", "neg_mean_squared_error", "neg_root_mean_squared_error", "neg_mean_absolute_error",
    "neg_median_absolute_error", "neg_mean_squared_log_error", "explained_variance", "max_error",
    "neg_mean_poisson_deviance", "neg_mean_gamma_deviance"]

/-- `EDA_PEEK_NODES`. -/
def EDA_PEEK_NODES : List String := ["stats.auto_eda", "stats.eda_profile"]

/-- The OUT ports of a split that carry the held-out rows. -/
def Node.test_ports (node : Node Sub) : List String :=
  (node.ports.filter fun p => p.name = "test" ∧ p.direction = .OUT).map (·.id)

/-- `_test_branch_nodes`. -/
def test_branch_nodes : List String :=
  (g.nodes.values.filter (·.type ∈ SPLIT_NODES)).flatMap fun split =>
    ((all_edges n g).filter fun e =>
      e.source.node_id = split.id ∧ e.source.port_id ∈ split.test_ports).flatMap fun e =>
        e.target.node_id :: downstream n g e.target.node_id

/-- `EdaPeekOnTest`. -/
def EdaPeekOnTest : List ValidityFinding :=
  ((g.of_type EDA_PEEK_NODES).filter (·.id ∈ test_branch_nodes n g)).map fun node =>
    let feeder := incoming_source n g node.id "frame"
    { rule_id := "eda_peek_on_test"
      severity := "warning"
      message := "node " ++ pack.repr node.id ++ " (" ++ node.type ++ ") computes exploratory analysis "
        ++ "on frame from node " ++ (feeder.map pack.repr).getD "None" ++ ", which is on the held-out "
        ++ "test branch of a split; the analyst is peeking at test data."
      node_id := some node.id
      related_node_ids := feeder.toList.filter (· ≠ "") }

/-- What `RankingMetricsOnRandomSplit` says of one node, given what feeds it. -/
def ranking_findings (evaluate test_feeder : String) : List ValidityFinding :=
  let upstream_ids := test_feeder :: upstream n g test_feeder
  let splits := (g.of_type SPLIT_NODES).filter (·.id ∈ upstream_ids)
  let temporal := splits.filter fun split =>
    split.type = "recommend.temporal_split" || split.splits_by_time
  let random := splits.filter fun split =>
    split.type = "ml.train_test_split" && !split.splits_by_time
  if temporal.isEmpty then
    random.map fun split => {
      rule_id := "ranking_metrics_on_random_split"
      severity := "warning"
      message := "node " ++ pack.repr evaluate ++ " (recommend.evaluate) measures ranking metrics "
        ++ "against test data from random split " ++ pack.repr split.id ++ " (ml.train_test_split); "
        ++ "use recommend.temporal_split for a temporal holdout."
      node_id := some evaluate
      related_node_ids := [split.id] }
  else []

/-- `RankingMetricsOnRandomSplit`. -/
def RankingMetricsOnRandomSplit : List ValidityFinding :=
  (g.of_type ["recommend.evaluate"]).flatMap fun evaluate =>
    (incoming_source n g evaluate.id "test_interactions").toList.flatMap
      (ranking_findings pack n g evaluate.id)

/-- The mismatch of a scoring and a task, as the family of the one and the other. -/
def scoring_mismatch (task scoring : String) : Option (String × String) :=
  if task = "classification" ∧ scoring ∈ REGRESSION_SCORING then
    some ("regression", "classification")
  else if task = "regression" ∧ scoring ∈ CLASSIFICATION_SCORING then
    some ("classification", "regression")
  else none

/-- `TaskMismatchedScoring`. -/
def TaskMismatchedScoring : List ValidityFinding :=
  (g.of_type ["ml.cross_validate"]).filterMap fun node => do
    let estimator ← (node.param_values.get? "estimator").bind ParamValue.as_str
    let scoring ← (node.param_values.get? "scoring").bind ParamValue.as_str
    let task ← pack.task estimator
    let (family, other) ← scoring_mismatch task scoring
    pure {
      rule_id := "task_mismatched_scoring"
      severity := "warning"
      message := "node " ++ pack.repr node.id ++ " (ml.cross_validate) uses " ++ family ++ " scoring "
        ++ pack.repr scoring ++ " on " ++ other ++ " estimator " ++ pack.repr estimator
        ++ "; the score is meaningless."
      node_id := some node.id }

/-! ## The runner -/

/-- `run_validity_checks`: the rules in the order of their ids. -/
def run_validity_checks : Except CodegenError (List ValidityFinding) := do
  let imputation ← GlobalImputationBeforeSplit pack n g
  let features ← TargetDerivedFeature pack n g
  pure (EdaPeekOnTest pack n g
    ++ (FitBeforeSplit pack.repr).findings g
    ++ (GlobalAggregateBeforeSplit pack.repr).findings g
    ++ imputation
    ++ RandomSplitOnTemporalGraph pack.repr g
    ++ RankingMetricsOnRandomSplit pack n g
    ++ features
    ++ TaskMismatchedScoring pack n g
    ++ TrainServeSkew pack.repr n g
    ++ (WindowCrossesSplit pack.repr).findings g)

end Rules

end EmergentFlow
