import Mathlib.Data.String.Basic
import EmergentFlow.Lib.RankSort
import EmergentFlow.Validity.Leakage

/-!
# Validity — Skew

The rule that compares the transforms a served model gets with those it was
trained on (`validity/rules/skew.py`). It rebuilds the two chains from
reachability over the edges of all scopes, whatever ports they run between.
-/

namespace EmergentFlow

/-- `TRANSFORM_CHAIN_NODES`. -/
def TRANSFORM_CHAIN_NODES : List String :=
  ["ml.transform", "ml.fit_transform", "transform.scale_features",
    "transform.encode_categorical", "transform.discretize", "transform.generate_features"]

/-- `TRAINING_NODES`. -/
def TRAINING_NODES : List String :=
  ["ml.fit_estimator", "ml.train_classifier", "ml.train_regressor", "ml.train_random_forest",
    "ml.pipeline", "ml.cross_validate", "ml.grid_search"]

variable {n : Nat}

/-! ## The chains -/

/-- The ports of a node with this name. -/
def Node.port_ids {Sub : Type} (node : Node Sub) (port_name : String) : List String :=
  (node.ports.filter (·.name = port_name)).map (·.id)

/-- `_incoming_source`. -/
def incoming_source (n : Nat) (g : Graph (Nested n)) (node_id port_name : String) :
    Option String :=
  (g.nodes.get? node_id).bind fun node =>
    ((all_edges n g).find? fun e =>
      e.target.node_id = node_id ∧ e.target.port_id ∈ node.port_ids port_name).map
        (·.source.node_id)

/-- `len(upstream(graph, c))`. -/
def depth (n : Nat) (g : Graph (Nested n)) (node_id : String) : Nat :=
  (upstream n g node_id).dedup.length

/-- The ids that are `a` or lead to it, and are `b` or lead to it. -/
def common_ancestors (n : Nat) (g : Graph (Nested n)) (a b : String) : List String :=
  (a :: upstream n g a).filter (· ∈ b :: upstream n g b)

/-- `_fork_point`. -/
def fork_point (n : Nat) (g : Graph (Nested n)) (a b : String) : Option String :=
  let common := common_ancestors n g a b
  (common.map (depth n g)).max?.bind fun deepest => (common.filter (depth n g · = deepest)).min?

/-- `_transforms_between`. -/
def transforms_between (n : Nat) (g : Graph (Nested n)) (fork consumer : String) :
    List (Node (Nested n)) :=
  (g.nodes.values.filter fun node => node.type ∈ TRANSFORM_CHAIN_NODES ∧
    reaches n g fork node.id ∧ reaches n g node.id consumer).insertionSort (·.id ≤ ·.id)

/-- `_chain_sequence`: the transforms by how many others reach them, then by id. -/
def chain_sequence (n : Nat) (g : Graph (Nested n)) (fork consumer : String) : List String :=
  (RankSort.sort (fun a b => reaches n g a.id b.id) (·.id)
    (transforms_between n g fork consumer)).map (·.type)

/-! ## Findings -/

/-- `{chain!r}`. -/
def repr_list (repr : String → String) (chain : List String) : String :=
  "[" ++ ", ".intercalate (chain.map repr) ++ "]"

/-- The types of the nodes, each where it occurs first. -/
def types_of (nodes : List (Node (Nested n))) : List String :=
  (nodes.map (·.type)).reverse.dedup.reverse

/-- The nodes of a type that one path has more of than the other: as many as
the difference. -/
def surplus (mine other : List (Node (Nested n))) : List (Node (Nested n)) :=
  (types_of mine).flatMap fun type =>
    (mine.filter (·.type = type)).take
      ((mine.map (·.type)).count type - (other.map (·.type)).count type)

/-- A finding of the rule. -/
def skew_finding (message node_id : String) (related : List String) : ValidityFinding where
  rule_id := "train_serve_skew"
  severity := "warning"
  message := message
  node_id := some node_id
  related_node_ids := related

section Rule

variable (repr : String → String) (n : Nat) (g : Graph (Nested n))

/-- What the rule says of one `ml.predict` and one training node, from the fork
of their frames on. -/
def fork_findings (fork predict train : String) : List ValidityFinding :=
  let predict_transforms := transforms_between n g fork predict
  let train_transforms := transforms_between n g fork train
  let predict_chain := chain_sequence n g fork predict
  let train_chain := chain_sequence n g fork train
  if train_chain = predict_chain then []
  -- the same transforms in another order: one finding
  else if (train_transforms.map (·.type)).Perm (predict_transforms.map (·.type)) then
    [skew_finding ("node " ++ repr predict ++ " (ml.predict) applies the same transforms as the "
      ++ "training path into node " ++ repr train ++ " but in a different order: scoring "
      ++ repr_list repr predict_chain ++ " vs training " ++ repr_list repr train_chain
      ++ "; the served data is transformed differently from the data the model was trained on.")
      predict [train]]
  else
    (surplus train_transforms predict_transforms).map (fun transform =>
      skew_finding ("node " ++ repr transform.id ++ " (" ++ transform.type
        ++ ") is applied on the training path into node " ++ repr train
        ++ " but NOT on the scoring path into node " ++ repr predict ++ " (ml.predict); "
        ++ "served data is missing this transform the model was trained on.")
        transform.id [train, predict]) ++
    (surplus predict_transforms train_transforms).map (fun transform =>
      skew_finding ("node " ++ repr transform.id ++ " (" ++ transform.type
        ++ ") is applied on the scoring path into node " ++ repr predict
        ++ " (ml.predict) but NOT on the training path into node " ++ repr train
        ++ "; the model never saw this transform.")
        transform.id [train, predict])

/-- What the rule says of one `ml.predict` and one training node: nothing when
their frames have no common origin. -/
def pair_findings (predict train : String) : List ValidityFinding :=
  let predict_frame := (incoming_source n g predict "frame").getD predict
  let train_frame := (incoming_source n g train "frame").getD train
  match fork_point n g predict_frame train_frame with
  | none => []
  | some fork => fork_findings repr n g fork predict train

/-- An `ml.predict` whose model comes from an `ml.load_model`. -/
def serves_loaded_model (node : Node (Nested n)) : Bool :=
  node.type = "ml.predict" &&
    ((incoming_source n g node.id "model").bind g.nodes.get?).any (·.type = "ml.load_model")

def scoring : List (Node (Nested n)) :=
  (g.nodes.values.filter (serves_loaded_model n g)).insertionSort (·.id ≤ ·.id)

def training : List (Node (Nested n)) :=
  (g.nodes.values.filter (·.type ∈ TRAINING_NODES)).insertionSort (·.id ≤ ·.id)

/-- `TrainServeSkew.check`, where it applies. -/
def TrainServeSkew : List ValidityFinding :=
  if g.nodes.values.any (·.type = "ml.predict") && g.nodes.values.any (·.type = "ml.load_model") then
    (scoring n g).flatMap fun predict => (training n g).flatMap fun train =>
      pair_findings repr n g predict.id train.id
  else []

end Rule

end EmergentFlow
