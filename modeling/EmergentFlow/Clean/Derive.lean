import EmergentFlow.Lib.Text
import EmergentFlow.Research.Columns

/-!
# Clean — Derive

`derive_column` (`emergentflow/clean/derive.py`) and the grammar it screens its
expressions with (`emergentflow/clean/expressions.py`), as far as the columns of
the frame go: which specs are applied, in which order, and what columns each
expression may name. A later spec may name the columns of the earlier ones.
-/

namespace EmergentFlow

/-- `CleanError`, by the check that raises it. -/
inductive CleanError where
  | no_columns
  | no_mapping
  | no_name
  | collision (name : String)
  | expr_or_when (name : String)
  | empty_when (name : String)
  | literal
  | branch
  | no_expression
  | invalid
  | unsupported
  | unknown_columns (names : List String)
  | evaluation
  | condition
  deriving DecidableEq, Repr

/-- What is outside: the syntax other than names, attributes and calls that the
grammar allows, and what pandas makes of an expression over a frame with these
columns. -/
structure Evaluator where
  allowed : PyExpr → Bool
  evaluates : List String → String → Bool
  condition : List String → String → Bool

/-! ## Expressions -/

/-- The names in a tree. -/
def PyExpr.names (tree : PyExpr) : List String := tree.walk.filterMap PyExpr.id?

/-- `type(node) in _ALLOWED_NODES`. -/
def Evaluator.supports (ev : Evaluator) : PyExpr → Bool
  | .name _ => true
  | .attribute _ => false
  | .call _ _ => false
  | .other children => ev.allowed (.other children)

section Derive

variable (parse : String → Option PyExpr) (ev : Evaluator)

/-- `validate_expression`. -/
def validate_expression (available : List String) (expr : ParamValue) :
    Except CleanError Unit := do
  let text ← Checks.require (expr.as_str.filter nonblank) .no_expression
  let tree ← Checks.require (parse text) .invalid
  Checks.guard (tree.walk.all ev.supports) .unsupported
  Checks.guard (tree.names.all (· ∈ available))
    (.unknown_columns (tree.names.filter (· ∉ available)).eraseDups)

/-- `validate_expression` and `_eval`. -/
def evaluate (available : List String) (expr : ParamValue) : Except CleanError Unit := do
  validate_expression parse ev available expr
  Checks.guard (ev.evaluates available (expr.as_str.getD "")) .evaluation

/-! ## Columns -/

/-- `isinstance(value, _LITERAL_TYPES)`. -/
def ParamValue.literal : ParamValue → Bool
  | .sequence _ => false
  | .mapping _ => false
  | .artifact_ref _ _ => false
  | _ => true

/-- One branch of a case-when. -/
def case_branch (available : List String) (branch : ParamValue) : Except CleanError Unit := do
  let condition ← Checks.require (branch.field "if") .branch
  let value ← Checks.require (branch.field "then") .branch
  Checks.guard value.literal .literal
  evaluate parse ev available condition
  Checks.guard (ev.condition available (condition.as_str.getD "")) .condition

/-- `_case_when`. -/
def case_when (available : List String) (name : String) (spec : ParamValue) :
    Except CleanError Unit := do
  Checks.guard (ParamValue.items (spec.field "when") ≠ []) (.empty_when name)
  Checks.guard ((spec.field "else").getD .none).literal .literal
  (ParamValue.items (spec.field "when")).forM (case_branch parse ev available)

/-- The name of a spec, after its checks. -/
def spec_name (spec : ParamValue) : Except CleanError String :=
  match spec with
  | .mapping _ => Checks.require (spec.derived_name.filter (· ≠ "")) .no_name
  | _ => .error .no_mapping

/-- The column of a spec is computed from the frame. -/
def compute_column (available : List String) (name : String) (spec : ParamValue) :
    Except CleanError Unit :=
  match spec.field "expr", spec.field "when" with
  | some expr, none => evaluate parse ev available expr
  | none, some _ => case_when parse ev available name spec
  | _, _ => .error (.expr_or_when name)

/-- The loop over the specs, `result` being the columns so far. -/
def derive_loop : List ParamValue → List String → Except CleanError (List String)
  | [], result => .ok result
  | spec :: rest, result => do
      let name ← spec_name spec
      Checks.guard (name ∉ result) (.collision name)
      compute_column parse ev result name spec
      derive_loop rest (result ++ [name])

/-- The columns of the frame that `derive_column` returns. -/
def derive_column (columns : List ParamValue) (df : List String) :
    Except CleanError (List String) := do
  Checks.guard (columns ≠ []) .no_columns
  derive_loop parse ev columns df

/-! ## What a spec reads -/

/-- The names that the expression in one field of a mapping evaluates. -/
def field_names (key : String) (spec : ParamValue) : List String :=
  (((spec.field key).bind ParamValue.as_str).bind parse).elim [] PyExpr.names

/-- The columns whose values the column of a spec is computed from. -/
def ParamValue.reads (spec : ParamValue) : List String :=
  if (spec.field "expr").isSome then field_names parse "expr" spec
  else (ParamValue.items (spec.field "when")).flatMap (field_names parse "if")

end Derive

variable {parse : String → Option PyExpr} {ev : Evaluator}

theorem mem_derive_spec_source_cols {spec : ParamValue} {r : String} :
    r ∈ derive_spec_source_cols parse spec ↔ r ∈ field_source_cols parse "expr" spec ∨
      ∃ branch ∈ ParamValue.items (spec.field "when"), r ∈ field_source_cols parse "if" branch := by
  rw [derive_spec_source_cols, mem_sorted_set, List.mem_append, List.mem_flatMap]

/-- A screened expression names columns of the frame only, and the trace sees
them all: without calls it leaves none out. -/
theorem validate_expression_spec {available : List String} {key : String} {spec expr : ParamValue}
    (hfield : spec.field key = some expr)
    (h : validate_expression parse ev available expr = .ok ()) (r : String) :
    (r ∈ field_source_cols parse key spec ↔ r ∈ field_names parse key spec) ∧
      (r ∈ field_names parse key spec → r ∈ available) := by
  obtain ⟨text, htext, h⟩ := Checks.bind_eq_ok.mp h
  obtain ⟨tree, htree, h⟩ := Checks.bind_eq_ok.mp h
  obtain ⟨_, hsupports, hnames⟩ := Checks.bind_eq_ok.mp h
  rw [Checks.require_eq_ok] at htext htree
  rw [Checks.guard_eq_ok] at hsupports hnames
  have hstr : expr.as_str = some text := (Option.filter_eq_some_iff.mp htext).1
  have huncalled : tree.walk.filterMap PyExpr.called = [] := by
    rw [List.filterMap_eq_nil_iff]
    intro e he
    have hsupported := List.all_eq_true.mp hsupports e he
    cases e with
    | call func args => cases hsupported
    | _ => rfl
  have hsource : field_source_cols parse key spec = sorted_set tree.names := by
    simp only [field_source_cols, hfield, Option.bind_some, hstr, derive_source_cols, htree,
      huncalled, List.not_mem_nil, not_false_eq_true, decide_true, List.filter_true, PyExpr.names]
  have hfound : field_names parse key spec = tree.names := by
    simp only [field_names, hfield, Option.bind_some, hstr, htree, Option.elim_some]
  rw [hsource, hfound, mem_sorted_set]
  refine ⟨Iff.rfl, fun hr => ?_⟩
  simpa using List.all_eq_true.mp hnames r hr

/-- The column of a spec is computed from columns of the frame only, those that
the trace takes it to come from. -/
theorem compute_column_spec {available : List String} {name : String} {spec : ParamValue}
    (h : compute_column parse ev available name spec = .ok ()) (r : String) :
    (r ∈ derive_spec_source_cols parse spec ↔ r ∈ spec.reads parse) ∧
      (r ∈ spec.reads parse → r ∈ available) := by
  rw [compute_column] at h
  rw [mem_derive_spec_source_cols, ParamValue.reads]
  cases hexpr : spec.field "expr" with
  | some expr =>
      cases hwhen : spec.field "when" with
      | some value => simp [hexpr, hwhen] at h
      | none =>
          simp only [hexpr, hwhen] at h
          obtain ⟨_, hvalid, -⟩ := Checks.bind_eq_ok.mp h
          simpa [hexpr, hwhen, ParamValue.items] using validate_expression_spec hexpr hvalid r
  | none =>
      cases hwhen : spec.field "when" with
      | none => simp [hexpr, hwhen] at h
      | some value =>
          simp only [hexpr, hwhen] at h
          -- two checks come before the branches: there are some, and `else` is a literal
          obtain ⟨_, -, h⟩ := Checks.bind_eq_ok.mp h
          obtain ⟨_, -, h⟩ := Checks.bind_eq_ok.mp h
          rw [Checks.forM_eq_ok] at h
          have hbranch : ∀ branch ∈ ParamValue.items (spec.field "when"),
              (r ∈ field_source_cols parse "if" branch ↔ r ∈ field_names parse "if" branch) ∧
                (r ∈ field_names parse "if" branch → r ∈ available) := by
            intro branch hmem
            obtain ⟨condition, hif, hrest⟩ := Checks.bind_eq_ok.mp (h branch hmem)
            obtain ⟨value, -, hrest⟩ := Checks.bind_eq_ok.mp hrest
            obtain ⟨_, -, hrest⟩ := Checks.bind_eq_ok.mp hrest
            obtain ⟨_, hevaluated, -⟩ := Checks.bind_eq_ok.mp hrest
            obtain ⟨_, hvalid, -⟩ := Checks.bind_eq_ok.mp hevaluated
            exact validate_expression_spec (Checks.require_eq_ok.mp hif) hvalid r
          rw [hwhen] at hbranch
          -- a `when` spec has no `expr` of its own to read columns from
          have hno : r ∉ field_source_cols parse "expr" spec := by
            simp [field_source_cols, hexpr]
          simp only [hno, false_or, Option.isSome_none, Bool.false_eq_true, if_false,
            List.mem_flatMap]
          constructor
          · exact exists_congr fun branch => and_congr_right fun hmem => (hbranch branch hmem).1
          · rintro ⟨branch, hmem, hr⟩
            exact (hbranch branch hmem).2 hr

theorem spec_name_eq_ok {spec : ParamValue} {name : String} (h : spec_name spec = .ok name) :
    spec.derived_name = some name := by
  cases spec with
  | mapping items => exact (Option.filter_eq_some_iff.mp (Checks.require_eq_ok.mp h)).1
  | _ => cases h

/-- What the specs make of the columns `input`: each a new one, computed from
those of the input and those of the specs before it. -/
structure Derives (parse : String → Option PyExpr) (specs : List ParamValue)
    (input out : List String) : Prop where
  columns : ∀ c, c ∈ out ↔ c ∈ input ∨ ∃ spec ∈ specs, spec.derived_name = some c
  fresh : ∀ spec ∈ specs, ∀ name, spec.derived_name = some name → name ∉ input
  distinct : specs.Pairwise fun spec later => spec.derived_name ≠ later.derived_name
  traced : ∀ spec ∈ specs, ∀ r, r ∈ derive_spec_source_cols parse spec ↔ r ∈ spec.reads parse
  available : ∀ pre spec post, specs = pre ++ spec :: post → ∀ r ∈ spec.reads parse,
    r ∈ input ∨ ∃ earlier ∈ pre, earlier.derived_name = some r

theorem derive_loop_spec {specs : List ParamValue} {result out : List String}
    (h : derive_loop parse ev specs result = .ok out) : Derives parse specs result out := by
  induction specs generalizing result with
  | nil =>
      cases h
      exact ⟨by simp, nofun, .nil, nofun, by simp⟩
  | cons spec rest ih =>
      obtain ⟨name, hname, h⟩ := Checks.bind_eq_ok.mp h
      obtain ⟨_, hnew, h⟩ := Checks.bind_eq_ok.mp h
      obtain ⟨_, hcomputed, h⟩ := Checks.bind_eq_ok.mp h
      have hspec := spec_name_eq_ok hname
      have hcompute := compute_column_spec hcomputed
      have hrest := ih h
      rw [Checks.guard_eq_ok, decide_eq_true_eq] at hnew
      refine ⟨fun c => ?_, ?_, ?_, ?_, ?_⟩
      · rw [hrest.columns, List.mem_append, List.mem_singleton, List.exists_mem_cons_iff, hspec,
          Option.some.injEq, or_assoc, eq_comm]
      · intro spec' hmem name' hname'
        rcases List.mem_cons.mp hmem with rfl | hmem
        · rw [hspec, Option.some.injEq] at hname'
          exact hname' ▸ hnew
        · exact fun hin => hrest.fresh spec' hmem name' hname' (List.mem_append_left _ hin)
      · refine List.pairwise_cons.mpr ⟨fun later hmem heq => ?_, hrest.distinct⟩
        rw [hspec] at heq
        exact hrest.fresh later hmem name heq.symm
          (List.mem_append_right _ (List.mem_singleton_self _))
      · intro spec' hmem r
        rcases List.mem_cons.mp hmem with rfl | hmem
        · exact (hcompute r).1
        · exact hrest.traced spec' hmem r
      · -- what a spec reads is given or made by a spec before it, which may be the first
        intro pre spec' post hsplit r hr
        cases pre with
        | nil =>
            obtain ⟨rfl, -⟩ := List.cons_eq_cons.mp hsplit
            exact .inl ((hcompute r).2 hr)
        | cons first pre =>
            obtain ⟨rfl, htail⟩ := List.cons_eq_cons.mp hsplit
            rcases hrest.available pre spec' post htail r hr with hin | ⟨earlier, hmem, hearlier⟩
            · rcases List.mem_append.mp hin with hin | hin
              · exact .inl hin
              · rw [List.mem_singleton] at hin
                exact .inr ⟨spec, List.mem_cons_self, hin ▸ hspec⟩
            · exact .inr ⟨earlier, List.mem_cons_of_mem _ hmem, hearlier⟩

theorem derive_column_spec {specs : List ParamValue} {df out : List String}
    (h : derive_column parse ev specs df = .ok out) : Derives parse specs df out := by
  obtain ⟨_, -, h⟩ := Checks.bind_eq_ok.mp h
  exact derive_loop_spec h

/-- The first spec of a name is the one that makes the column. -/
theorem Derives.find? {specs : List ParamValue} {input out : List String}
    (h : Derives parse specs input out) {pre post : List ParamValue} {spec : ParamValue}
    {name : String} (hsplit : specs = pre ++ spec :: post) (hname : spec.derived_name = some name) :
    specs.find? (·.derived_name = some name) = some spec := by
  subst hsplit
  rw [List.find?_append, List.find?_cons, hname]
  have hnone : pre.find? (·.derived_name = some name) = none := by
    rw [List.find?_eq_none]
    intro earlier hmem
    have hne := (List.pairwise_append.mp h.distinct).2.2 earlier hmem spec List.mem_cons_self
    rw [hname] at hne
    simpa using hne
  rw [hnone]
  simp

end EmergentFlow
