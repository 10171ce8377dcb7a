import EmergentFlow.Lib.Dict
import EmergentFlow.Lib.Join
import EmergentFlow.Lib.Json
import EmergentFlow.Lib.Transaction

/-!
# Eval — Cells

The compare harness (`eval/run.py`), the join of human labels onto its table
(`eval/label.py`) and the summary of scores (`eval/score.py`). A cell is one
row of the data set under one variant of the model. What a prompt renders to
and what the client answers are parameters, as is the mean of a column.
-/

namespace EmergentFlow

/-! ## Running -/

/-- A model variant: `provider`, `model` and the settings, such as
`temperature` and `response_format`, that go to `call` as they are. -/
structure Variant where
  provider : String
  model : String
  settings : Dict String Json := Dict.empty

/-- `LLMResponse`, without the model that served the request. -/
structure LLMResponse where
  text : Option String
  data : Json
  input_tokens : Int
  output_tokens : Int
  cost_usd : JsonFloat
  latency_ms : JsonFloat
  finish_reason : String

/-- A row of the result table. -/
structure ResultRow (Message : Type) where
  row_id : Nat
  input : Dict String Json
  messages : List Message
  provider : String
  model : String
  output : Json
  input_tokens : Int
  output_tokens : Int
  cost_usd : JsonFloat
  latency_ms : JsonFloat
  finish_reason : String

section Run

variable {σ ε Message : Type}

/-- The row of one cell. -/
def result_row (row_id : Nat) (row : Dict String Json) (messages : List Message) (variant : Variant)
    (response : LLMResponse) : ResultRow Message where
  row_id := row_id
  input := row
  messages := messages
  provider := variant.provider
  model := variant.model
  output := match response.text with
    | some text => .str text
    | none => response.data
  input_tokens := response.input_tokens
  output_tokens := response.output_tokens
  cost_usd := response.cost_usd
  latency_ms := response.latency_ms
  finish_reason := response.finish_reason

/-- The calls of one row of the data set. -/
def run_row (call : List Message → Variant → Transaction σ ε LLMResponse) (row_id : Nat)
    (row : Dict String Json) (messages : List Message) :
    List Variant → Transaction σ ε (List (ResultRow Message))
  | [] => pure []
  | variant :: variants => do
      let response ← call messages variant
      let rows ← run_row call row_id row messages variants
      pure (result_row row_id row messages variant response :: rows)

/-- The loop of `run`, from a row on. -/
def run_rows (render_prompt : Dict String Json → Except ε (List Message))
    (call : List Message → Variant → Transaction σ ε LLMResponse) (variants : List Variant)
    (row_id : Nat) : List (Dict String Json) → Transaction σ ε (List (ResultRow Message))
  | [] => pure []
  | row :: dataset => do
      let messages ← .lift (render_prompt row)
      let rows ← run_row call row_id row messages variants
      let rest ← run_rows render_prompt call variants (row_id + 1) dataset
      pure (rows ++ rest)

/-- `run`. -/
def eval_run (render_prompt : Dict String Json → Except ε (List Message))
    (call : List Message → Variant → Transaction σ ε LLMResponse)
    (dataset : List (Dict String Json)) (variants : List Variant) :
    Transaction σ ε (List (ResultRow Message)) :=
  run_rows render_prompt call variants 0 dataset

end Run

/-! ## Labels -/

/-- `provider + ":" + model`. -/
def variant_name (provider model : String) : String := provider ++ ":" ++ model

/-- The key a result row is labelled under. -/
def ResultRow.key {Message : Type} (row : ResultRow Message) : Int × String :=
  (row.row_id, variant_name row.provider row.model)

/-- A row of the label table. -/
structure LabelRow where
  row_id : Int
  variant : String
  label : Json
  score : Json := .null
  rubric : Json := .null
  note : Json := .null

def LabelRow.key (row : LabelRow) : Int × String := (row.row_id, row.variant)

/-- The label table, with the columns it has. -/
structure LabelTable where
  columns : List String
  rows : List LabelRow

inductive LabelColumnError where
  | missing (columns : List String)
  | duplicate
  deriving DecidableEq

/-- `_REQUIRED_LABEL_COLUMNS`. -/
def REQUIRED_LABEL_COLUMNS : List String := ["row_id", "variant", "label"]

/-- An optional column that the table lacks is filled with `None`. -/
def LabelTable.optional (labels : LabelTable) (column : String) (value : Json) : Json :=
  if column ∈ labels.columns then value else .null

/-- The rows with all optional columns. -/
def LabelTable.filled (labels : LabelTable) : List LabelRow :=
  labels.rows.map fun row =>
    { row with
      score := labels.optional "score" row.score
      rubric := labels.optional "rubric" row.rubric
      note := labels.optional "note" row.note }

/-- `label`: every result row with its label row. -/
def eval_label {Message : Type} (results : List (ResultRow Message)) (labels : LabelTable) :
    Except LabelColumnError (List (ResultRow Message × Option LabelRow)) :=
  let missing := REQUIRED_LABEL_COLUMNS.filter (· ∉ labels.columns)
  if missing ≠ [] then .error (.missing missing)
  else if ¬ (labels.rows.map LabelRow.key).Nodup then .error .duplicate
  else .ok (Join.left ResultRow.key LabelRow.key results labels.filled)

/-! ## Summaries -/

/-- A scored table: the result rows and the `score_*` columns. -/
structure ScoredTable (Message : Type) where
  rows : List (ResultRow Message)
  scores : Dict String (List JsonFloat)

/-- A row of the summary. -/
structure ScoreSummary where
  variant : String
  n : Nat
  means : List (String × JsonFloat)

/-- The places of the rows that are averaged together. -/
def score_groups {Message : Type} (rows : List (ResultRow Message)) : List (String × List Nat) :=
  Join.groups (fun row => variant_name row.provider row.model) (fun a b => decide (a ≤ b)) rows

/-- The summary of one group: the mean of each score column over its places. -/
def score_summary (mean : List JsonFloat → JsonFloat) (scores : Dict String (List JsonFloat))
    (group : String × List Nat) : ScoreSummary where
  variant := group.1
  n := group.2.length
  means := scores.entries.map fun column =>
    (column.1, mean (group.2.filterMap fun i => column.2[i]?))

/-- `summarize_scores`; `none` where it raises for want of a score column. -/
def summarize_scores {Message : Type} (mean : List JsonFloat → JsonFloat)
    (scored : ScoredTable Message) : Option (List ScoreSummary) :=
  if scored.scores.entries = [] then none
  else some ((score_groups scored.rows).map (score_summary mean scored.scores))

end EmergentFlow
