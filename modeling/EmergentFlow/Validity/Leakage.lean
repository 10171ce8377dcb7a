import Mathlib.Data.List.Sort
import EmergentFlow.Validity.Traversal

/-!
# Validity — Leakage

The rules that look for a type of node upstream of a split
(`validity/rules/leakage.py`): fitting transforms, and group-by
aggregates. They differ in the types they suspect and in what they say;
the loop over suspects and splits is one.
-/

namespace EmergentFlow

variable {n : Nat} {g : Graph (Nested n)}

/-! ## Findings -/

/-- `ValidityFinding`. -/
structure ValidityFinding where
  rule_id : String
  severity : String
  message : String
  node_id : Option String := none
  related_node_ids : List String := []
  deriving DecidableEq, Repr

/-- What one of the rules suspects and says: the message is made from the
node, its type and the id of the split. -/
structure BeforeSplitRule where
  id : String
  severity : String
  suspects : List String
  message : (node_id type split_id : String) → String

/-! ## The nodes in question -/

/-- `SPLIT_NODES`. -/
def SPLIT_NODES : List String := ["ml.train_test_split", "recommend.temporal_split"]

/-- `FITTING_TRANSFORMS`. -/
def FITTING_TRANSFORMS : List String :=
  ["ml.fit_transform", "ml.pipeline", "transform.scale_features",
    "transform.encode_categorical", "transform.discretize"]

/-- `_split_ids`. -/
def split_ids (g : Graph (Nested n)) : List String :=
  ((g.nodes.values.filter (·.type ∈ SPLIT_NODES)).map (·.id)).insertionSort (· ≤ ·)

/-! ## The loop -/

/-- `applies_when`. -/
def has_splits (g : Graph (Nested n)) : Bool := g.nodes.values.any (·.type ∈ SPLIT_NODES)

/-- `check`: one finding for every suspect and every split it reaches. -/
def BeforeSplitRule.check (rule : BeforeSplitRule) (g : Graph (Nested n)) : List ValidityFinding :=
  let splits := split_ids g
  (g.nodes.values.insertionSort (·.id ≤ ·.id)).flatMap fun node =>
    if node.type ∈ rule.suspects then
      (splits.filter (reaches n g node.id ·)).map fun split_id => {
        rule_id := rule.id
        severity := rule.severity
        message := rule.message node.id node.type split_id
        node_id := some node.id
        related_node_ids := [split_id] }
    else []

/-- The findings of the rule: it is skipped where it does not apply. -/
def BeforeSplitRule.findings (rule : BeforeSplitRule) (g : Graph (Nested n)) :
    List ValidityFinding :=
  if has_splits g then rule.check g else []

/-! ## The rules

The texts quote ids as `repr` prints them. -/

section Rules

variable (repr : String → String)

/-- `FitBeforeSplit`. -/
def FitBeforeSplit : BeforeSplitRule where
  id := "fit_before_split"
  severity := "error"
  suspects := FITTING_TRANSFORMS
  message node_id type split_id :=
    "node " ++ repr node_id ++ " (" ++ type ++ ") fits a transform on data upstream of split node "
      ++ repr split_id ++ "; its parameters see the held-out rows."

/-- `GlobalAggregateBeforeSplit`. -/
def GlobalAggregateBeforeSplit : BeforeSplitRule where
  id := "global_aggregate_before_split"
  severity := "warning"
  suspects := ["stats.group_by_aggregate"]
  message node_id _ split_id :=
    "node " ++ repr node_id ++ " (stats.group_by_aggregate) computes global statistics upstream "
      ++ "of split node " ++ repr split_id ++ "; those statistics include the held-out rows."

end Rules

/-! ## What is reported -/

/-- The rule reports the node `t` for the split `s`. -/
def BeforeSplitRule.Reports (rule : BeforeSplitRule) (g : Graph (Nested n)) (t s : String) : Prop :=
  ∃ finding ∈ rule.findings g, finding.node_id = some t ∧ finding.related_node_ids = [s]

/-- A node of the graph with this id has one of these types. -/
def Graph.HasType {Sub : Type} (g : Graph Sub) (id : String) (types : List String) : Prop :=
  ∃ node ∈ g.nodes.values, node.id = id ∧ node.type ∈ types

/-- The pairs a rule reports. -/
theorem BeforeSplitRule.reports_iff {rule : BeforeSplitRule} {t s : String} :
    rule.Reports g t s ↔ g.HasType t rule.suspects ∧ g.HasType s SPLIT_NODES ∧
      reaches n g t s = true := by
  have hsplit : s ∈ split_ids g ↔ g.HasType s SPLIT_NODES := by
    simp only [split_ids, List.mem_insertionSort, List.mem_map, List.mem_filter, decide_eq_true_eq,
      Graph.HasType, and_assoc]
    exact exists_congr fun node => by tauto
  have happlies : g.HasType s SPLIT_NODES → has_splits g = true := by
    rintro ⟨node, hmem, -, htype⟩
    exact List.any_eq_true.mpr ⟨node, hmem, decide_eq_true htype⟩
  constructor
  · rintro ⟨finding, hmem, hnode, hrelated⟩
    unfold findings at hmem
    split at hmem
    · simp only [check, List.mem_flatMap, List.mem_insertionSort] at hmem
      obtain ⟨node, hvalues, hmem⟩ := hmem
      split at hmem
      · rename_i htype
        obtain ⟨split_id, hsplits, rfl⟩ := List.mem_map.mp hmem
        obtain ⟨hsplits, hreaches⟩ := List.mem_filter.mp hsplits
        cases hnode
        cases hrelated
        exact ⟨⟨node, hvalues, rfl, htype⟩, hsplit.mp hsplits, hreaches⟩
      · cases hmem
    · cases hmem
  · rintro ⟨⟨node, hvalues, rfl, htype⟩, hs, hreaches⟩
    let finding : ValidityFinding := {
      rule_id := rule.id
      severity := rule.severity
      message := rule.message node.id node.type s
      node_id := some node.id
      related_node_ids := [s] }
    refine ⟨finding, ?_, rfl, rfl⟩
    rw [findings, if_pos (happlies hs)]
    simp only [check, List.mem_flatMap, List.mem_insertionSort]
    refine ⟨node, hvalues, ?_⟩
    rw [if_pos htype]
    exact List.mem_map.mpr ⟨s, List.mem_filter.mpr ⟨hsplit.mpr hs, hreaches⟩, rfl⟩

end EmergentFlow
