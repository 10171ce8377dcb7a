import Mathlib.Algebra.Field.Rat
import Mathlib.Algebra.Order.Field.Basic
import Mathlib.Algebra.Order.Ring.Rat
import Mathlib.Algebra.BigOperators.Group.List.Basic
import EmergentFlow.Lib.Greedy
import EmergentFlow.Lib.StableSort

/-!
# Causal — Matching

Nearest-neighbour matching on a score (`causal/matching.py`). Treated units take their
turn by falling score, and each goes through the shuffled controls from near to far. The
scores that the propensity model gives, the generator of the shuffle and the square
root are parameters; numbers are exact.
-/

namespace EmergentFlow.Causal

variable {L K : Type}

/-! ## Units -/

/-- A row of the frame: its index label, its treatment, its score, its outcome. -/
structure Subject (L K : Type) where
  label : L
  treated : Bool
  logit : K
  y : K
  deriving DecidableEq

/-- A row and its position. -/
abbrev Indexed (L K : Type) := Subject L K × Nat

def units (rows : List (Subject L K)) : List (Indexed L K) := rows.zipIdx

def treated_units (rows : List (Subject L K)) : List (Indexed L K) :=
  (units rows).filter (·.1.treated)

def control_units (rows : List (Subject L K)) : List (Indexed L K) :=
  (units rows).filter (!·.1.treated)

/-- `rng.permutation(n)`. -/
structure Rng where
  permutation : Nat → List Nat
  perm : ∀ n, (permutation n).Perm (List.range n)

def Rng.shuffle {α : Type} (rng : Rng) (l : List α) : List α :=
  (rng.permutation l.length).filterMap (l[·]?)

/-! ## The caliper -/

inductive CausalError (K : Type) where
  | requires_both_treated_and_control
  | caliper_must_be_positive (caliper : K)
  | no_matched_pairs
  deriving DecidableEq

/-- The literal 2 of a field. -/
local instance two : Nat.AtLeastTwo 2 := ⟨Nat.le_refl 2⟩

section

variable [Field K] [LinearOrder K]

/-- `ndarray.var`. -/
def var (l : List K) : K :=
  let mean := l.sum / l.length
  (l.map fun x => (x - mean) ^ 2).sum / l.length

/-- The bound on the distance of a pair; no bound where the scores have no spread. -/
def caliper_bound (sqrt : K → K) (caliper : Option K) (rows : List (Subject L K)) : Option K :=
  caliper.bind fun caliper =>
    let pooled_sd := sqrt (1 / 2 * (var ((treated_units rows).map (·.1.logit)) +
      var ((control_units rows).map (·.1.logit))))
    if 0 < pooled_sd then some (caliper * pooled_sd) else none

def within (bound : Option K) (dist : K) : Bool :=
  match bound with
  | none => true
  | some bound => dist ≤ bound

/-! ## Matching -/

def dist (t c : Indexed L K) : K := |c.1.logit - t.1.logit|

/-- The treated units by falling score, those of one score in the order of the frame. -/
def turns (rows : List (Subject L K)) : List (Indexed L K) :=
  (treated_units rows).mergeSort fun a b => -a.1.logit ≤ -b.1.logit

/-- The controls from near to far, those of one distance in the shuffled order. -/
def candidates (controls : List (Indexed L K)) (t : Indexed L K) : List (Indexed L K) :=
  controls.mergeSort fun a b => dist t a ≤ dist t b

/-- The pairs that the loop finds, in the order it finds them. -/
def pairs_of [DecidableEq L] (rng : Rng) (bound : Option K) (rows : List (Subject L K)) :
    List (Indexed L K × Indexed L K) :=
  (Greedy.run (candidates (rng.shuffle (control_units rows)))
    (fun t c => within bound (dist t c)) (turns rows)).pairs

/-- A row of the returned frame. -/
structure Pair (L K : Type) where
  treated_index : L
  control_index : L
  score_treated : K
  score_control : K
  outcome_treated : K
  outcome_control : K
  difference : K

def pair_row (p : Indexed L K × Indexed L K) : Pair L K where
  treated_index := p.1.1.label
  control_index := p.2.1.label
  score_treated := p.1.1.logit
  score_control := p.2.1.logit
  outcome_treated := p.1.1.y
  outcome_control := p.2.1.y
  difference := p.1.1.y - p.2.1.y

/-- `match_nearest`, from the scores on. -/
def match_nearest [DecidableEq L] (sqrt : K → K) (rng : Rng) (caliper : Option K)
    (rows : List (Subject L K)) : Except (CausalError K) (List (Pair L K)) :=
  if treated_units rows = [] ∨ control_units rows = [] then
    .error .requires_both_treated_and_control
  else
    match caliper.filter (· ≤ 0) with
    | some caliper => .error (.caliper_must_be_positive caliper)
    | none =>
        match pairs_of rng (caliper_bound sqrt caliper rows) rows with
        | [] => .error .no_matched_pairs
        | pairs => .ok (pairs.map pair_row)

end

/-! ## The matching -/

theorem Rng.shuffle_perm {α : Type} (rng : Rng) (l : List α) : (rng.shuffle l).Perm l := by
  have hrange : (List.range l.length).filterMap (l[·]?) = l := by
    induction l using List.reverseRecOn with
    | nil => rfl
    | append_singleton l a ih =>
        have hold : (List.range l.length).filterMap ((l ++ [a])[·]?) =
            (List.range l.length).filterMap (l[·]?) := by
          apply List.filterMap_congr
          intro i hi
          exact List.getElem?_append_left (List.mem_range.mp hi)
        rw [List.length_append, List.length_singleton, List.range_succ, List.filterMap_append,
          hold, ih]
        simp
  rw [shuffle]
  exact ((rng.perm l.length).filterMap _).trans (.of_eq hrange)

theorem nodup_units (rows : List (Subject L K)) : (units rows).Nodup := by
  apply List.Nodup.of_map Prod.snd
  rw [units, List.zipIdx_map_snd]
  exact List.nodup_range'

/-- What a list of pairs owes to the treated units and the controls. -/
structure Matching [Field K] [LinearOrder K] (rows : List (Subject L K)) (bound : Option K)
    (pairs : List (Indexed L K × Indexed L K)) : Prop where
  sides : ∀ p ∈ pairs, p.1 ∈ treated_units rows ∧ p.2 ∈ control_units rows
  treated_once : (pairs.map Prod.fst).Nodup
  control_once : (pairs.map Prod.snd).Nodup
  within_caliper : ∀ p ∈ pairs, within bound (dist p.1 p.2) = true
  falling : pairs.Pairwise fun p q => q.1.1.logit ≤ p.1.1.logit
  /-- a control that is nearer belongs to an earlier pair -/
  nearest : ∀ pre p post, pairs = pre ++ p :: post → ∀ c ∈ control_units rows,
    c ∉ pre.map Prod.snd → dist p.1 p.2 ≤ dist p.1 c
  unmatched : ∀ t ∈ treated_units rows, t ∉ pairs.map Prod.fst → ∀ c ∈ control_units rows,
    c ∉ pairs.map Prod.snd → within bound (dist t c) = false

variable [Field K] [LinearOrder K]

theorem candidates_sorted (controls : List (Indexed L K)) (t : Indexed L K) :
    (candidates controls t).Pairwise (dist t · ≤ dist t ·) :=
  StableSort.pairwise_mergeSort_key (dist t) controls

theorem turns_sorted [IsStrictOrderedRing K] (rows : List (Subject L K)) :
    (turns rows).Pairwise fun a b => b.1.logit ≤ a.1.logit :=
  (StableSort.pairwise_mergeSort_key (fun a : Indexed L K => -a.1.logit) _).imp neg_le_neg_iff.mp

theorem matching_pairs_of [IsStrictOrderedRing K] [DecidableEq L] (rng : Rng) (bound : Option K)
    (rows : List (Subject L K)) : Matching rows bound (pairs_of rng bound rows) := by
  have hcandidates : ∀ t c, c ∈ candidates (rng.shuffle (control_units rows)) t ↔
      c ∈ control_units rows := fun t c =>
    ((List.mergeSort_perm _ _).trans (rng.shuffle_perm _)).mem_iff
  have hturns : (turns rows).Perm (treated_units rows) := List.mergeSort_perm _ _
  have hnear : Greedy.Nearest (candidates (rng.shuffle (control_units rows)))
      (fun t c => within bound (dist t c)) dist := by
    refine ⟨candidates_sorted _, fun t c c' hle hwithin => ?_⟩
    cases bound with
    | none => rfl
    | some bound => exact decide_eq_true (hle.trans (of_decide_eq_true hwithin))
  have hfair := Greedy.fair_run hnear (turns rows)
  have hagents : ((pairs_of rng bound rows).map Prod.fst).Sublist (turns rows) := hfair.agents
  have hnodup : (turns rows).Nodup := hturns.nodup_iff.mpr ((nodup_units rows).filter _)
  refine ⟨fun p hp => ⟨?_, ?_⟩, hagents.nodup hnodup, hfair.once, ?_, ?_, ?_, ?_⟩
  · exact hturns.mem_iff.mp (hagents.subset (List.mem_map_of_mem hp))
  · exact (hcandidates _ _).mp (hfair.allowed p hp).1
  · exact fun p hp => (hfair.allowed p hp).2
  · exact List.pairwise_map.mp ((turns_sorted rows).sublist hagents)
  · intro pre p post hsplit c hc hbefore
    exact hfair.nearest pre p post hsplit c ((hcandidates _ _).mpr hc) hbefore
  · intro t ht hout c hc hfree
    have hfree' := mt (hfair.taken c).mp hfree
    exact hfair.unmatched t (hturns.mem_iff.mpr ht) hout c ((hcandidates _ _).mpr hc) hfree'

/-- The frame lists the pairs of a matching, or an error says why there is none. -/
def Matched [DecidableEq L] (sqrt : K → K) (rng : Rng) (caliper : Option K)
    (rows : List (Subject L K)) : Prop :=
  ∃ pairs, Matching rows (caliper_bound sqrt caliper rows) pairs ∧
    (match_nearest sqrt rng caliper rows = .ok (pairs.map pair_row) ∧ pairs ≠ [] ∨
      match_nearest sqrt rng caliper rows = .error .no_matched_pairs ∧ pairs = [] ∨
      (∃ c, caliper = some c ∧ c ≤ 0 ∧
        match_nearest sqrt rng caliper rows = .error (.caliper_must_be_positive c)) ∨
      (treated_units rows = [] ∨ control_units rows = []) ∧
        match_nearest sqrt rng caliper rows = .error .requires_both_treated_and_control)

theorem match_nearest_matched [IsStrictOrderedRing K] [DecidableEq L] (sqrt : K → K) (rng : Rng)
    (caliper : Option K) (rows : List (Subject L K)) : Matched sqrt rng caliper rows := by
  refine ⟨pairs_of rng (caliper_bound sqrt caliper rows) rows, matching_pairs_of .., ?_⟩
  rw [match_nearest]
  by_cases hboth : treated_units rows = [] ∨ control_units rows = []
  · rw [if_pos hboth]
    exact .inr (.inr (.inr ⟨hboth, rfl⟩))
  rw [if_neg hboth]
  cases hcaliper : caliper.filter (· ≤ 0) with
  | some c =>
      obtain ⟨hsome, hle⟩ := Option.filter_eq_some_iff.mp hcaliper
      exact .inr (.inr (.inl ⟨c, hsome, of_decide_eq_true hle, rfl⟩))
  | none =>
      cases hpairs : pairs_of rng (caliper_bound sqrt caliper rows) rows with
      | nil => exact .inr (.inl ⟨rfl, rfl⟩)
      | cons p pairs => exact .inl ⟨rfl, List.cons_ne_nil _ _⟩

/-! ## Two treated units after one control -/

def unshuffled : Rng where
  permutation := List.range
  perm _ := .refl _

/-- The root of a square of a rational. -/
def rational_sqrt (x : Rat) : Rat := Nat.sqrt x.num.toNat / Nat.sqrt x.den

/-- Both treated units are nearest to `c`, whose score lies between theirs. -/
def contested : List (Subject String Rat) := [
  { label := "a", treated := true, logit := 0, y := 5 },
  { label := "b", treated := true, logit := 2, y := 7 },
  { label := "c", treated := false, logit := 1, y := 4 },
  { label := "d", treated := false, logit := 3, y := 6 }]

theorem match_nearest_contested : Matched rational_sqrt unshuffled (some 1) contested :=
  match_nearest_matched rational_sqrt unshuffled (some 1) contested

end EmergentFlow.Causal
