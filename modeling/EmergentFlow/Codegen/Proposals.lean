import EmergentFlow.Codegen.Gate
import EmergentFlow.Codegen.Traversal
import EmergentFlow.Collab.Session
import EmergentFlow.Ir.MutationLaw
import EmergentFlow.Validity.RunnerLaw

/-!
# Codegen — Proposals

The diagnostics of a proposed mutation (`propose_diagnostics` of
`ir/mutation.py`) under the validator of the package. They chain the mutation,
the wiring, the inference and the validity rules; a `MutationError` and a
`CardinalityError` are caught on the way, what else they raise is not.
-/

namespace EmergentFlow

variable {Sub : Type}

/-! ## What `validate` raises -/

section Validate

variable {v : Validator} {n : Nat} {g : Graph (Nested n)}

/-- The type check returns on acyclic graphs, and on those where the wiring
stops it before the cycle is seen. -/
theorem Validator.type_diagnostics_returns_iff (hv : g.Valid) :
    (∃ types, v.type_diagnostics n g = .ok types) ↔ Closure.Acyclic g.Feeds ∨ g.FedTwice := by
  by_cases htwice : g.FedTwice
  · refine ⟨fun _ => .inr htwice, fun _ => ?_⟩
    cases hw : build_wiring_map g with
    | ok w => exact absurd htwice (build_wiring_map_ok_iff.mp ⟨w, hw⟩)
    | error e =>
        obtain ⟨id, name, k, rfl⟩ := build_wiring_map_raises g e hw
        have hinfer : v.infer_graph_types n g = .error (.cardinality id name k) := by
          rw [Validator.infer_graph_types, hw]
          rfl
        exact ⟨_, by rw [Validator.type_diagnostics, hinfer]⟩
  · obtain ⟨w, hw⟩ := build_wiring_map_ok_iff.mpr htwice
    rw [or_iff_left htwice, ← topological_sort_ok_iff hv]
    rcases topological_sort_cases hv with ⟨order, horder, -⟩ | ⟨names, hcycle, -⟩
    · refine ⟨fun _ => ⟨order, horder⟩, fun _ => ?_⟩
      rw [Validator.type_diagnostics, Validator.infer_graph_types, hw, horder]
      exact ⟨_, rfl⟩
    · have hinfer : v.infer_graph_types n g = .error (.cycle names) := by
        rw [Validator.infer_graph_types, hw, hcycle]
        rfl
      rw [Validator.type_diagnostics, hinfer, hcycle]
      simp

theorem Validator.validate_returns_iff :
    (∃ ds, v.validate n g = .ok ds) ↔ (∃ types, v.type_diagnostics n g = .ok types) ∧
      ∃ findings, v.validity n g = .ok findings := by
  constructor
  · rintro ⟨_, h⟩
    obtain ⟨types, htypes, h⟩ := Checks.bind_eq_ok.mp h
    obtain ⟨diagnostics, hdiagnostics, -⟩ := Checks.bind_eq_ok.mp h
    exact ⟨⟨types, htypes⟩, Checks.bind_pure_returns_iff.mp ⟨diagnostics, hdiagnostics⟩⟩
  · rintro ⟨⟨types, htypes⟩, hvalidity⟩
    obtain ⟨diagnostics, hdiagnostics⟩ := Checks.bind_pure_returns_iff.mpr hvalidity
    exact ⟨_, Checks.bind_eq_ok.mpr
      ⟨types, htypes, Checks.bind_eq_ok.mpr ⟨diagnostics, hdiagnostics, rfl⟩⟩⟩

end Validate

/-! ## Proposals -/

/-- The validator of the package: its rules are those of the pack. -/
def RulePack.validator (pack : RulePack) (registry : NodeRegistry) (types : TypeRegistry)
    (infer_types : ∀ n, Node (Nested n) → Dict String String → Dict String String) :
    Validator where
  registry := registry
  types := types
  infer_types := infer_types
  validity := run_validity_checks pack
  repr := pack.repr

/-- The diagnostics of a mutation that cannot be applied: one error. -/
def mutation_error_diagnostics (message : String) : Diagnostics where
  diagnostics := [{ severity := .ERROR, code := "mutation_error", message }]
  edge_compatibility := Dict.empty

/-- The validation of mutated graphs; `str` gives the text of an error. -/
def Validator.validation (v : Validator) (str : MutationError → String) (n : Nat) :
    Validation (Nested n) Diagnostics where
  registry := v.registry
  mutation_error e := mutation_error_diagnostics (str e)
  run_validate g := (v.validate n g).toOption

/-- Every proposal has diagnostics: those of the mutated graph where the mutation
applies, the failure itself where it does not. -/
structure ProposalLaw (v : Validator) (str : MutationError → String) (n : Nat)
    (g : Graph (Nested n)) (m : GraphMutation (Nested n)) : Prop where
  total : ∃ ds, propose_diagnostics (v.validation str n) g m = .ok ds
  applied : ∀ g' ds, apply_mutation v.registry g m = .ok g' →
    propose_diagnostics (v.validation str n) g m = .ok ds → v.validate n g' = .ok ds

section Law

variable {v : Validator} {str : MutationError → String} {n : Nat} {g g' : Graph (Nested n)}
  {m : GraphMutation (Nested n)}

theorem propose_diagnostics_of_error {e : MutationError}
    (h : apply_mutation v.registry g m = .error e) :
    propose_diagnostics (v.validation str n) g m =
      if e.is_mutation_error then .ok (mutation_error_diagnostics (str e))
      else .error (.mutation e) := by
  have hsame : apply_mutation (v.validation str n).registry g m = .error e := h
  rw [propose_diagnostics, hsame]
  rfl

theorem propose_diagnostics_of_ok (h : apply_mutation v.registry g m = .ok g') :
    propose_diagnostics (v.validation str n) g m =
      (v.validate n g').mapError fun _ => .diagnostics_error := by
  have hsame : apply_mutation (v.validation str n).registry g m = .ok g' := h
  have hrun : (v.validation str n).run_validate g' = (v.validate n g').toOption := rfl
  rw [propose_diagnostics, hsame]
  simp only [hrun]
  cases v.validate n g' <;> rfl

theorem proposalLaw_of_error {e : MutationError} (h : apply_mutation v.registry g m = .error e) :
    ProposalLaw v str n g m ↔ e.is_mutation_error = true := by
  constructor
  · rintro ⟨⟨ds, hds⟩, -⟩
    by_contra hforeign
    rw [propose_diagnostics_of_error h, if_neg hforeign] at hds
    cases hds
  · intro hdeclared
    refine ⟨⟨_, by rw [propose_diagnostics_of_error h, if_pos hdeclared]⟩, fun g' ds hg' => ?_⟩
    rw [h] at hg'
    cases hg'

theorem proposalLaw_of_ok (h : apply_mutation v.registry g m = .ok g') :
    ProposalLaw v str n g m ↔ ∃ ds, v.validate n g' = .ok ds := by
  constructor
  · rintro ⟨⟨ds, hds⟩, -⟩
    rw [propose_diagnostics_of_ok h, Checks.mapError_eq_ok] at hds
    exact ⟨ds, hds⟩
  · rintro ⟨ds, hds⟩
    refine ⟨⟨ds, by rw [propose_diagnostics_of_ok h, hds]; rfl⟩, fun g'' ds' hg'' hds' => ?_⟩
    rw [h] at hg''
    cases hg''
    rw [propose_diagnostics_of_ok h, Checks.mapError_eq_ok] at hds'
    exact hds'

end Law

/-- Nothing on the way of the mutated graph through `validate` raises. -/
structure ValidatesQuietly (ast_parse : String → ParsedExpr) (g : Graph Sub) : Prop where
  wiring : Closure.Acyclic g.Feeds ∨ g.FedTwice
  strategies : StrategiesHash g
  expressions : ExpressionsParse ast_parse g

section Proposals

variable (pack : RulePack) (registry : NodeRegistry) (types : TypeRegistry)
  (infer_types : ∀ n, Node (Nested n) → Dict String String → Dict String String)
  (str : MutationError → String) (n : Nat)

theorem validator_returns_iff {g : Graph (Nested n)} (hv : g.Valid) :
    (∃ ds, (pack.validator registry types infer_types).validate n g = .ok ds) ↔
      ValidatesQuietly pack.ast_parse g := by
  rw [Validator.validate_returns_iff, Validator.type_diagnostics_returns_iff hv]
  have hrules : (∃ findings, run_validity_checks pack n g = .ok findings) ↔
      StrategiesHash g ∧ ExpressionsParse pack.ast_parse g := run_validity_checks_returns_iff hv
  constructor
  · rintro ⟨hwiring, hfindings⟩
    obtain ⟨hstrategies, hexpressions⟩ := hrules.mp hfindings
    exact ⟨hwiring, hstrategies, hexpressions⟩
  · rintro ⟨hwiring, hstrategies, hexpressions⟩
    exact ⟨hwiring, hrules.mpr ⟨hstrategies, hexpressions⟩⟩

end Proposals

/-! ## A proposal that closes a cycle -/

/-- A node that feeds another. -/
def fed_by_a : Graph Empty :=
  let ports : List Port := [{ id := "in", name := "in", direction := .IN },
    { id := "out", name := "out", direction := .OUT }]
  { nodes := (Dict.empty.set "a" { id := "a", type := "t", ports }).set "b"
      { id := "b", type := "t", ports }
    edges := Dict.empty.set "ab" { id := "ab", source := ⟨"a", "out"⟩, target := ⟨"b", "in"⟩ } }

/-- An edge back to the first. -/
def edge_back : GraphMutation Empty :=
  { base_version := 0
    add_edges := [{ id := "ba", source := ⟨"b", "out"⟩, target := ⟨"a", "in"⟩ }] }

end EmergentFlow
