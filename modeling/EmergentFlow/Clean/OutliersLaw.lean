import Mathlib.Algebra.Order.Ring.Rat
import Mathlib.Data.List.ReduceOption
import Mathlib.Data.Rat.Sqrt
import EmergentFlow.Clean.Outliers
import EmergentFlow.Lib.Checks

/-!
# Clean — Outliers Law

The score, the flag, the filter and the clip of `detect_outliers` follow one fence. The lower
bound is never above the upper one, whatever the rule (`outlier_bounds_le`), and from that the
score exceeds one exactly outside. A grouped result is, row by row, what the rule says of the
row among the rows of its group.
-/

namespace EmergentFlow.Outliers

variable {ι β K : Type} [Field K] [LinearOrder K]

/-! ## Fences -/

/-- A value that lies strictly outside a fence. -/
def Outside (fence : Option (K × K)) (value : Option K) : Prop :=
  ∃ lower upper x, fence = some (lower, upper) ∧ value = some x ∧ (x < lower ∨ upper < x)

def Inside (fence : Option (K × K)) (value : Option K) : Prop :=
  ∃ lower upper x, fence = some (lower, upper) ∧ value = some x ∧ lower ≤ x ∧ x ≤ upper

/-- A score and a fence say the same of a value. -/
structure Scored (fence : Option (K × K)) (value : Option K) : Prop where
  above : (∃ score, deviation fence value = some score ∧ 1 < score) ↔ Outside fence value
  within : (∃ score, deviation fence value = some score ∧ score ≤ 1) ↔ Inside fence value
  missing : deviation fence value = none ↔ value = none

omit [Field K] in
theorem outside_iff {fence : Option (K × K)} {value : Option K} :
    outside fence value = true ↔ Outside fence value := by
  cases fence with
  | none =>
      refine iff_of_false Bool.false_ne_true ?_
      rintro ⟨_, _, _, hfence, -⟩
      cases hfence
  | some fence =>
      cases value with
      | none =>
          refine iff_of_false Bool.false_ne_true ?_
          rintro ⟨_, _, _, -, hvalue, -⟩
          cases hvalue
      | some x =>
          constructor
          · intro h
            exact ⟨fence.1, fence.2, x, rfl, rfl, by simpa [outside] using h⟩
          · rintro ⟨lower, upper, x, hfence, hvalue, h⟩
            obtain rfl := Option.some.inj hfence
            obtain rfl := Option.some.inj hvalue
            simpa [outside] using h

omit [Field K] in
/-- A clip moves the values outside, and no others. -/
theorem nearest_ne_iff {fence : Option (K × K)} {x : K} :
    ¬ nearest fence x = x ↔ Outside fence (some x) := by
  rw [← outside_iff]
  cases fence with
  | none => exact iff_of_false (fun h => h rfl) Bool.false_ne_true
  | some fence =>
      rw [nearest, outside]
      by_cases hbelow : x < fence.1
      · simp [hbelow, hbelow.ne']
      · by_cases habove : fence.2 < x
        · simp [hbelow, habove, habove.ne]
        · simp [hbelow, habove]

variable [IsStrictOrderedRing K]

theorem side_gt_one (distance : K) {width : K} (hwidth : 0 ≤ width) (hdistance : 0 < distance) :
    ∃ score, side distance width = some score ∧ (1 < score ↔ width < distance) := by
  rcases hwidth.lt_or_eq with hpos | hzero
  · refine ⟨_, if_pos hpos, ?_⟩
    rw [← WithTop.coe_one, WithTop.coe_lt_coe, one_lt_div hpos]
  · refine ⟨⊤, by rw [side, if_neg hzero.not_lt, if_pos hzero.symm], ?_⟩
    exact iff_of_true (WithTop.coe_lt_top 1) (hzero ▸ hdistance)

/-- Outside of an ordered fence, and only there, the score exceeds one. -/
theorem deviation_gt_one {lower upper x : K} (h : lower ≤ upper) :
    ∃ score, deviation (some (lower, upper)) (some x) = some score ∧
      (1 < score ↔ x < lower ∨ upper < x) := by
  -- the score is the distance from the centre over the half width on that side
  let centre := (lower + upper) / 2
  have hlower : lower ≤ centre := by
    rw [le_div_iff₀ two_pos]
    linarith
  have hupper : centre ≤ upper := by
    rw [div_le_iff₀ two_pos]
    linarith
  by_cases hcentre : x = centre
  · refine ⟨0, if_pos hcentre, iff_of_false (not_lt.mpr zero_le_one) ?_⟩
    rintro (hout | hout)
    · exact absurd (hcentre ▸ hout) (not_lt.mpr hlower)
    · exact absurd (hcentre ▸ hout) (not_lt.mpr hupper)
  · rcases lt_or_gt_of_ne hcentre with hbelow | habove
    · obtain ⟨score, hscore, hiff⟩ := side_gt_one |x - centre|
        (sub_nonneg.mpr hlower) (abs_pos.mpr (sub_ne_zero.mpr hcentre))
      refine ⟨score, ?_, ?_⟩
      · rw [← hscore]
        exact (if_neg hcentre).trans (if_neg hbelow.not_gt)
      · rw [hiff, abs_of_neg (sub_neg.mpr hbelow)]
        constructor
        · intro hfar
          left
          linarith
        · rintro (hout | hout)
          · linarith
          · exact absurd hout (not_lt.mpr (hbelow.le.trans hupper))
    · obtain ⟨score, hscore, hiff⟩ := side_gt_one |x - centre|
        (sub_nonneg.mpr hupper) (abs_pos.mpr (sub_ne_zero.mpr hcentre))
      refine ⟨score, ?_, ?_⟩
      · rw [← hscore]
        exact (if_neg hcentre).trans (if_pos habove)
      · rw [hiff, abs_of_pos (sub_pos.mpr habove)]
        constructor
        · intro hfar
          right
          linarith
        · rintro (hout | hout)
          · exact absurd hout (not_lt.mpr (hlower.trans habove.le))
          · linarith

/-- With an ordered fence, which is there whenever the value is, score and fence agree. -/
theorem scored_of_ordered {fence : Option (K × K)} {value : Option K}
    (hordered : ∀ lower upper, fence = some (lower, upper) → lower ≤ upper)
    (hfence : value ≠ none → fence ≠ none) : Scored fence value := by
  cases value with
  | none =>
      have hmissing : deviation fence none = none := by
        cases fence <;> rfl
      refine ⟨iff_of_false ?_ ?_, iff_of_false ?_ ?_, iff_of_true hmissing rfl⟩
      · rintro ⟨_, hscore, -⟩
        cases hmissing.symm.trans hscore
      · rintro ⟨_, _, _, -, hvalue, -⟩
        cases hvalue
      · rintro ⟨_, hscore, -⟩
        cases hmissing.symm.trans hscore
      · rintro ⟨_, _, _, -, hvalue, -⟩
        cases hvalue
  | some x =>
      obtain ⟨⟨lower, upper⟩, rfl⟩ := Option.ne_none_iff_exists'.mp (hfence (Option.some_ne_none x))
      obtain ⟨score, hscore, hiff⟩ := deviation_gt_one (x := x) (hordered lower upper rfl)
      have houtside : Outside (some (lower, upper)) (some x) ↔ x < lower ∨ upper < x := by
        simp [Outside]
      have hinside : Inside (some (lower, upper)) (some x) ↔ lower ≤ x ∧ x ≤ upper := by
        simp [Inside]
      refine ⟨?_, ?_, ?_⟩
      · rw [houtside, ← hiff]
        simp [hscore]
      · rw [hinside, ← not_lt, ← not_lt, ← not_or, ← hiff]
        simp [hscore]
      · simp [hscore]

/-! ## The bounds of a rule -/

omit [IsStrictOrderedRing K] in
theorem check_outlier_rule_ok {name : String} {threshold : K} {method : Method}
    (h : check_outlier_rule name threshold = .ok method) :
    0 < threshold ∧ (method = .quantile → threshold < 1 / 2) ∧
      (method = .percent → threshold < 1) := by
  rw [check_outlier_rule] at h
  split at h
  · cases h
  · split at h
    · next hdomain =>
        cases h
        exact ⟨hdomain.1, fun _ => hdomain.2, by simp⟩
    · cases h
  · split at h
    · next hdomain =>
        cases h
        exact ⟨hdomain.1, by simp, fun _ => hdomain.2⟩
    · cases h
  · next hquantile hpercent _ =>
      split at h
      · cases h
      · next hpos =>
          cases h
          refine ⟨not_le.mp hpos, ?_, ?_⟩
          · rintro rfl
            exact (hquantile rfl).elim
          · rintro rfl
            exact (hpercent rfl).elim

theorem around_le (centre : K) {spread : Option K} (delta : K → K)
    (hdelta : ∀ s, spread = some s → 0 ≤ delta s) :
    (around centre spread delta).1 ≤ (around centre spread delta).2 := by
  cases spread with
  | none => exact le_refl centre
  | some s =>
      have hpos := hdelta s rfl
      rw [around]
      split
      · exact le_refl centre
      · exact (sub_le_self centre hpos).trans (le_add_of_nonneg_right hpos)

theorem distances_nonneg (centre : K) (values : List K) : ∀ x ∈ distances centre values, 0 ≤ x := by
  intro x hx
  obtain ⟨v, -, rfl⟩ := List.mem_map.mp hx
  exact abs_nonneg _

theorem MAD_SCALE_pos : (0 : K) < MAD_SCALE :=
  div_pos (by norm_num) (by norm_num)

variable {sqrt : K → K}

/-- The lower bound is not above the upper one. -/
theorem outlier_bounds_le (hsqrt : ∀ x, 0 ≤ sqrt x) {name : String} {threshold : K}
    {method : Method} (hrule : check_outlier_rule name threshold = .ok method)
    {series : List (Option K)} {lower upper : K}
    (h : outlier_bounds sqrt method threshold series = some (lower, upper)) : lower ≤ upper := by
  obtain ⟨hpos, hquantile, hpercent⟩ := check_outlier_rule_ok hrule
  cases method with
  | zscore =>
      obtain ⟨mean, -, h⟩ := Option.bind_eq_some_iff.mp h
      have hspread : ∀ s, std sqrt series.reduceOption = some s → 0 ≤ threshold * s := by
        intro s hs
        obtain ⟨m, -, hs⟩ := Option.bind_eq_some_iff.mp hs
        split at hs
        · cases hs
        · obtain rfl := Option.some.inj hs
          exact mul_nonneg hpos.le (hsqrt _)
      have hle := around_le mean (threshold * ·) hspread
      rwa [Option.some.inj h] at hle
  | modified_zscore =>
      obtain ⟨median, -, h⟩ := Option.bind_eq_some_iff.mp h
      have hspread : ∀ s, Quantile.median (distances median series.reduceOption) = some s →
          0 ≤ threshold * s / MAD_SCALE := fun s hs =>
        div_nonneg (mul_nonneg hpos.le
          (Quantile.quantile_nonneg (distances_nonneg _ _) (by norm_num) hs)) MAD_SCALE_pos.le
      have hle := around_le median (threshold * · / MAD_SCALE) hspread
      rwa [Option.some.inj h] at hle
  | iqr =>
      obtain ⟨p25, h25, h⟩ := Option.bind_eq_some_iff.mp h
      obtain ⟨p75, h75, h⟩ := Option.bind_eq_some_iff.mp h
      have hle : p25 ≤ p75 := Quantile.quantile_mono (by norm_num) (by norm_num) h25 h75
      have hdelta : 0 ≤ threshold * (p75 - p25) := mul_nonneg hpos.le (sub_nonneg.mpr hle)
      -- a zero spread collapses the fence to the two quartiles
      dsimp only at h
      split at h
      · obtain ⟨rfl, rfl⟩ := Prod.mk.inj (Option.some.inj h)
        exact hle
      · -- a positive spread widens it
        obtain ⟨rfl, rfl⟩ := Prod.mk.inj (Option.some.inj h)
        linarith
  | quantile =>
      obtain ⟨low, hlow, h⟩ := Option.bind_eq_some_iff.mp h
      obtain ⟨high, hhigh, h⟩ := Option.bind_eq_some_iff.mp h
      obtain ⟨rfl, rfl⟩ := Prod.mk.inj (Option.some.inj h)
      have hhalf := hquantile rfl
      exact Quantile.quantile_mono hpos.le (by linarith) hlow hhigh
  | percent =>
      obtain ⟨median, -, h⟩ := Option.bind_eq_some_iff.mp h
      have hone := hpercent rfl
      have hspread : ∀ s, Quantile.quantile (distances median series.reduceOption)
          (1 - threshold) = some s → 0 ≤ id s := fun s hs =>
        Quantile.quantile_nonneg (distances_nonneg _ _) (sub_nonneg.mpr hone.le) hs
      have hle := around_le median id hspread
      rwa [Option.some.inj h] at hle

omit [IsStrictOrderedRing K] in
/-- A column with a value has a fence. -/
theorem exists_outlier_bounds (method : Method) (threshold : K) {series : List (Option K)} {x : K}
    (hx : some x ∈ series) : outlier_bounds sqrt method threshold series ≠ none := by
  have hvalues : series.reduceOption ≠ [] :=
    List.ne_nil_of_mem (List.reduceOption_mem_iff.mpr hx)
  refine Option.ne_none_iff_exists'.mpr ?_
  cases method with
  | zscore =>
      rw [outlier_bounds, mean, if_neg hvalues]
      exact ⟨_, rfl⟩
  | modified_zscore =>
      obtain ⟨median, hmedian⟩ := Quantile.exists_quantile hvalues (1 / 2)
      rw [outlier_bounds, Quantile.median, hmedian]
      exact ⟨_, rfl⟩
  | iqr =>
      obtain ⟨p25, h25⟩ := Quantile.exists_quantile hvalues (1 / 4)
      obtain ⟨p75, h75⟩ := Quantile.exists_quantile hvalues (3 / 4)
      rw [outlier_bounds, h25, h75]
      by_cases hiqr : p75 - p25 = 0
      · exact ⟨_, if_pos hiqr⟩
      · exact ⟨_, if_neg hiqr⟩
  | quantile =>
      obtain ⟨low, hlow⟩ := Quantile.exists_quantile hvalues threshold
      obtain ⟨high, hhigh⟩ := Quantile.exists_quantile hvalues (1 - threshold)
      rw [outlier_bounds, hlow, hhigh]
      exact ⟨_, rfl⟩
  | percent =>
      obtain ⟨median, hmedian⟩ := Quantile.exists_quantile hvalues (1 / 2)
      rw [outlier_bounds, Quantile.median, hmedian]
      exact ⟨_, rfl⟩

/-! ## One row at a time -/

section Verdict

variable (sqrt : K → K)

/-- What the rule makes of a row among given rows, if it stays. -/
def Plan.verdict (plan : Plan K) (rows : List (Row ι K β)) (row : Row ι K β) :
    Option (Detected ι K β) :=
  match plan.action with
  | .flag => some ⟨row, some (plan.is_outlier sqrt rows row, plan.score sqrt rows row)⟩
  | .drop => if plan.is_outlier sqrt rows row then none else some ⟨row, none⟩
  | .clip => some ⟨plan.clip sqrt rows row, none⟩

/-- The rows of the group that a row is in. -/
def peers [DecidableEq β] (by_cols : List String) (rows : List (Row ι K β)) (row : Row ι K β) :
    List (Row ι K β) :=
  rows.filter fun other => other.key by_cols = row.key by_cols

end Verdict

section Rows

variable (sqrt)

omit [IsStrictOrderedRing K]

theorem apply_eq (plan : Plan K) (rows : List (Row ι K β)) :
    plan.apply sqrt rows = rows.filterMap (plan.verdict sqrt rows) := by
  unfold Plan.apply Plan.verdict
  cases plan.action with
  | flag =>
      dsimp only
      rw [List.filterMap_eq_map']
  | clip =>
      dsimp only
      rw [List.filterMap_eq_map']
  | drop =>
      dsimp only
      rw [← List.filterMap_eq_filter, List.map_filterMap]
      refine List.filterMap_congr fun row _ => ?_
      cases hflag : plan.is_outlier sqrt rows row <;> simp [Option.guard, hflag]

/-- With nothing to measure, no row is flagged or clipped. -/
theorem verdict_of_target_nil {plan : Plan K} (htarget : plan.target = [])
    (haction : plan.action ≠ .flag) (rows : List (Row ι K β)) (row : Row ι K β) :
    plan.verdict sqrt rows row = some ⟨row, none⟩ := by
  unfold Plan.verdict
  cases hact : plan.action with
  | flag => exact absurd hact haction
  | drop => simp [Plan.is_outlier, htarget]
  | clip => simp [Plan.clip, htarget]

theorem detect_ungrouped_eq {df : Frame ι K β} {r : DetectRequest K} {plan : Plan K}
    (h : check_request df.columns r = .ok plan) :
    detect_ungrouped sqrt df r = .ok (df.rows.filterMap (plan.verdict sqrt df.rows)) := by
  refine Checks.bind_eq_ok.mpr ⟨plan, h, ?_⟩
  by_cases hcopy : plan.action ≠ .flag ∧ plan.target = []
  · rw [if_pos hcopy, List.filterMap_congr fun row _ =>
      verdict_of_target_nil sqrt hcopy.2 hcopy.1 df.rows row, List.filterMap_eq_map']
    rfl
  · rw [if_neg hcopy, apply_eq sqrt]
    rfl

/-- The verdict only reads the cells. -/
theorem verdict_congr {ι' : Type} (plan : Plan K) {rows : List (Row ι K β)}
    {rows' : List (Row ι' K β)} (hrows : rows.map Row.cells = rows'.map Row.cells)
    {row : Row ι K β} {row' : Row ι' K β} (hrow : row.cells = row'.cells) :
    (plan.verdict sqrt rows row).map (fun d => (d.row.cells, d.added)) =
      (plan.verdict sqrt rows' row').map fun d => (d.row.cells, d.added) := by
  have hvalues : ∀ col, rows.map (·.value col) = rows'.map (·.value col) := by
    intro col
    have hmap := congrArg (List.map fun cells => Cell.value (cells col)) hrows
    rwa [List.map_map, List.map_map] at hmap
  have hfence : ∀ col, plan.fence sqrt rows col = plan.fence sqrt rows' col := fun col => by
    rw [Plan.fence, Plan.fence, hvalues]
  have hvalue : ∀ col, row.value col = row'.value col := fun col => by
    rw [Row.value, Row.value, hrow]
  have hflag : plan.is_outlier sqrt rows row = plan.is_outlier sqrt rows' row' := by
    simp only [Plan.is_outlier, hfence, hvalue]
  have hscore : plan.score sqrt rows row = plan.score sqrt rows' row' := by
    simp only [Plan.score, hfence, hvalue]
  have hclip : (plan.clip sqrt rows row).cells = (plan.clip sqrt rows' row').cells := by
    funext col
    simp only [Plan.clip, Plan.clip_cell, hfence, hrow]
  unfold Plan.verdict
  cases plan.action with
  | flag => simp only [Option.map_some, hflag, hscore, hrow]
  | clip => simp only [Option.map_some, hclip]
  | drop =>
      rw [hflag]
      cases plan.is_outlier sqrt rows' row' <;> simp [hrow]

/-- A verdict is about the row, whose label it keeps. -/
theorem verdict_index {plan : Plan K} {rows : List (Row ι K β)} {row : Row ι K β}
    {d : Detected ι K β} (h : plan.verdict sqrt rows row = some d) : d.row.index = row.index := by
  unfold Plan.verdict at h
  cases hact : plan.action with
  | flag =>
      rw [hact] at h
      obtain rfl := Option.some.inj h
      rfl
  | clip =>
      rw [hact] at h
      obtain rfl := Option.some.inj h
      rfl
  | drop =>
      simp only [hact] at h
      split at h
      · cases h
      · obtain rfl := Option.some.inj h
        rfl

end Rows

/-! ## Group by group -/

section Grouped

variable (sqrt)

omit [IsStrictOrderedRing K]

omit [Field K] [LinearOrder K] in
/-- What is measured is a numeric column of the frame. -/
theorem target_ok {r : DetectRequest K} {columns : List (String × Kind)} {target : List String}
    (h : r.target columns = .ok target) :
    ∀ c ∈ target, c ∈ columns.map Prod.fst ∧ is_outlier_eligible columns c = true := by
  rw [DetectRequest.target] at h
  cases hgiven : r.columns with
  | none =>
      rw [hgiven] at h
      obtain rfl := Except.ok.inj h
      intro c hc
      obtain ⟨hname, hc⟩ := List.mem_filter.mp hc
      exact ⟨hname, (of_decide_eq_true hc).1⟩
  | some given =>
      rw [hgiven] at h
      dsimp only at h
      split at h
      · cases h
      · next hknown =>
          split at h
          · cases h
          · next heligible =>
              obtain rfl := Except.ok.inj h
              intro c hc
              have hname := List.filter_eq_nil_iff.mp (not_not.mp hknown) c
                (List.mem_of_mem_filter hc)
              have hkind := List.filter_eq_nil_iff.mp (not_not.mp heligible) c hc
              simp only [decide_eq_true_eq, not_not] at hname hkind
              exact ⟨hname, hkind⟩

omit [Field K] [LinearOrder K] in
/-- Asking for these columns again finds them all. -/
theorem target_again {r : DetectRequest K} {columns : List (String × Kind)} {target : List String}
    (h : ∀ c ∈ target, c ∈ columns.map Prod.fst ∧ is_outlier_eligible columns c = true) :
    DetectRequest.target { r with columns := some target, by_cols := [] } columns = .ok target := by
  have hknown : target.filter (· ∉ columns.map Prod.fst) = [] :=
    List.filter_eq_nil_iff.mpr fun c hc => by simpa using (h c hc).1
  have hmeasured : target.filter (fun c => decide (c ∉ ([] : List String))) = target :=
    List.filter_eq_self.mpr fun c _ => by simp
  have heligible : target.filter (fun c => decide ¬ is_outlier_eligible columns c = true) = [] :=
    List.filter_eq_nil_iff.mpr fun c hc => by simp [(h c hc).2]
  simp only [DetectRequest.target, hknown, hmeasured, heligible, ne_eq, not_true, if_false]
  rfl

/-- Everything that the checks ask of a request, and what they take over from it. -/
theorem check_request_iff {r : DetectRequest K} {columns : List (String × Kind)} {plan : Plan K} :
    check_request columns r = .ok plan ↔
      check_outlier_rule r.method r.threshold = .ok plan.method ∧
        Combine.of_name r.combine = some plan.combine ∧ r.effective_action = .ok plan.action ∧
          r.by_cols.filter (· ∉ columns.map Prod.fst) = [] ∧ r.target columns = .ok plan.target ∧
            ¬ (plan.action = .flag ∧
              [r.flag_column, r.score_column].filter (· ∈ columns.map Prod.fst) ≠ []) ∧
              plan.threshold = r.threshold := by
  constructor
  · intro h
    obtain ⟨method, hmethod, h⟩ := Checks.bind_eq_ok.mp h
    cases hcombine : Combine.of_name r.combine with
    | none =>
        rw [hcombine] at h
        cases h
    | some combine =>
        rw [hcombine] at h
        obtain ⟨action, haction, h⟩ := Checks.bind_eq_ok.mp h
        dsimp only at h
        split at h
        · cases h
        · next hknown =>
            obtain ⟨target, htarget, h⟩ := Checks.bind_eq_ok.mp h
            split at h
            · cases h
            · next hcollisions =>
                obtain rfl := Except.ok.inj h
                exact ⟨hmethod, rfl, haction, not_not.mp hknown, htarget, hcollisions, rfl⟩
  · rintro ⟨hmethod, hcombine, haction, hknown, htarget, hcollisions, hthreshold⟩
    refine Checks.bind_eq_ok.mpr ⟨plan.method, hmethod, ?_⟩
    rw [hcombine]
    refine Checks.bind_eq_ok.mpr ⟨plan.action, haction, ?_⟩
    dsimp only
    rw [if_neg (not_not.mpr hknown)]
    refine Checks.bind_eq_ok.mpr ⟨plan.target, htarget, ?_⟩
    rw [if_neg hcollisions, ← hthreshold]
    rfl

/-- The check of a group asks for what is measured, and passes with the same plan. -/
theorem check_request_again {r : DetectRequest K} {columns : List (String × Kind)} {plan : Plan K}
    (h : check_request columns r = .ok plan) :
    check_request columns { r with columns := some plan.target, by_cols := [] } = .ok plan := by
  obtain ⟨hmethod, hcombine, haction, -, htarget, hcollisions, hthreshold⟩ :=
    check_request_iff.mp h
  exact check_request_iff.mpr ⟨hmethod, hcombine, haction, rfl, target_again (target_ok htarget),
    hcollisions, hthreshold⟩

variable [DecidableEq β]

/-- The rows of a frame under their positions. -/
def positioned (rows : List (Row ι K β)) : List (Row Nat K β) :=
  rows.zipIdx.map fun x => { x.1 with index := x.2 }

omit [Field K] [LinearOrder K] [DecidableEq β] in
theorem cells_positioned (rows : List (Row ι K β)) :
    (positioned rows).map Row.cells = rows.map Row.cells := by
  have hrows := congrArg (List.map Row.cells) (List.zipIdx_map_fst 0 rows)
  rw [List.map_map] at hrows
  rw [← hrows, positioned, List.map_map]
  rfl

omit [Field K] in
/-- A group has the same cells under the positions. -/
theorem cells_peers (by_cols : List String) (rows : List (Row ι K β)) {row : Row ι K β}
    {row' : Row Nat K β} (hrow : row'.cells = row.cells) :
    (peers by_cols (positioned rows) row').map Row.cells =
      (peers by_cols rows row).map Row.cells := by
  have hfilter : ∀ {ι' : Type} (rows : List (Row ι' K β)) (row : Row ι' K β),
      (peers by_cols rows row).map Row.cells =
        (rows.map Row.cells).filter fun cells => by_cols.map cells = by_cols.map row.cells := by
    intro ι' rows row
    rw [List.filter_map]
    rfl
  rw [hfilter, hfilter, cells_positioned, hrow]

/-- Under their own labels, the verdicts on the positioned rows are those on the rows. -/
theorem relabelled (plan : Plan K) (by_cols : List String) (rows : List (Row ι K β)) :
    (((positioned rows).filterMap fun row =>
        plan.verdict sqrt (peers by_cols (positioned rows) row) row).filterMap fun d =>
      (rows[d.row.index]?).map fun row =>
        ({ d with row := { d.row with index := row.index } } : Detected ι K β)) =
      rows.filterMap fun row => plan.verdict sqrt (peers by_cols rows row) row := by
  have hrows : rows.filterMap (fun row => plan.verdict sqrt (peers by_cols rows row) row) =
      rows.zipIdx.filterMap fun x => plan.verdict sqrt (peers by_cols rows x.1) x.1 := by
    conv_lhs => rw [← List.zipIdx_map_fst 0 rows, List.filterMap_map]
    rw [List.zipIdx_map_fst]
    rfl
  have hmap : ∀ f : Row Nat K β → Option (Detected ι K β), (positioned rows).filterMap f =
      rows.zipIdx.filterMap fun x => f { x.1 with index := x.2 } := fun f => List.filterMap_map ..
  rw [hrows, List.filterMap_filterMap, hmap]
  refine List.filterMap_congr fun x hx => ?_
  -- a verdict depends on the cells alone, so the label may be put back afterwards
  have hlabel : rows[x.2]? = some x.1 := List.mem_zipIdx_iff_getElem?.mp hx
  let row : Row Nat K β := { x.1 with index := x.2 }
  have hrow : row.cells = x.1.cells := rfl
  have hcells := verdict_congr sqrt plan (cells_peers by_cols rows hrow) hrow
  cases hpositioned : plan.verdict sqrt (peers by_cols (positioned rows) row) row with
  | none =>
      rw [hpositioned] at hcells
      rw [Option.map_eq_none_iff.mp hcells.symm]
      rfl
  | some d =>
      rw [hpositioned] at hcells
      obtain ⟨d', hd', heq⟩ := Option.map_eq_some_iff.mp hcells.symm
      obtain ⟨hcells, hadded⟩ := Prod.mk.inj heq
      have hindex : d.row.index = x.2 := verdict_index sqrt hpositioned
      have hindex' : d'.row.index = x.1.index := verdict_index sqrt hd'
      rw [Option.bind_some, hindex, hlabel, hd', Option.map_some, ← hindex']
      dsimp only
      rw [← hcells, ← hadded]

/-- A run returns, row by row, what the rule makes of the row in its group. -/
theorem detect_outliers_eq {df : Frame ι K β} {r : DetectRequest K} {plan : Plan K}
    (h : check_request df.columns r = .ok plan) :
    detect_outliers sqrt df r = .ok (df.rows.filterMap fun row =>
      plan.verdict sqrt (peers r.by_cols df.rows row) row) := by
  refine Checks.bind_eq_ok.mpr ⟨plan, h, ?_⟩
  -- no column to measure: the rows come back as they are
  by_cases hcopy : plan.action ≠ .flag ∧ plan.target = []
  · rw [if_pos hcopy, List.filterMap_congr fun row _ =>
      verdict_of_target_nil sqrt hcopy.2 hcopy.1 (peers r.by_cols df.rows row) row,
      List.filterMap_eq_map']
    rfl
  · rw [if_neg hcopy]
    by_cases hby : r.by_cols = []
    · have hall : ∀ row, peers r.by_cols df.rows row = df.rows := fun row => by
        rw [hby]
        exact List.filter_eq_self.mpr fun _ _ => decide_eq_true rfl
      simp only [if_pos hby, hall, apply_eq sqrt]
      rfl
    · dsimp only
      rw [if_neg hby]
      have hsub : ∀ sub : List (Row Nat K β),
          detect_ungrouped sqrt { columns := df.columns, rows := sub }
            { r with columns := some plan.target, by_cols := [] } =
              .ok (sub.filterMap (plan.verdict sqrt sub)) := by
        intro sub
        refine detect_ungrouped_eq sqrt ?_
        exact check_request_again h
      refine Checks.bind_eq_ok.mpr ⟨_, Checks.mapM_eq_map fun sub _ => hsub sub, ?_⟩
      -- the groups, one after the other, sort back into the order of the rows
      have hplace : (positioned df.rows).Pairwise fun a b => a.index < b.index := by
        have hrange : (List.range' 0 df.rows.length).Pairwise (· < ·) := List.pairwise_lt_range'
        rw [← List.zipIdx_map_snd 0 df.rows] at hrange
        rw [positioned, List.pairwise_map]
        exact List.pairwise_map.mp hrange
      have hsort := Groups.sort_flatMap_groups (Row.key r.by_cols)
        (fun d : Detected Nat K β => d.row.index) (plan.verdict sqrt) hplace fun _ _ _ hd =>
          verdict_index sqrt hd
      rw [List.flatMap_def] at hsort
      refine congrArg Except.ok (Eq.trans ?_ (relabelled sqrt plan r.by_cols df.rows))
      exact congrArg (List.filterMap _) hsort

end Grouped

/-! ## The law of the actions -/

section Law

variable (sqrt) [DecidableEq β]

/-- The request with another action. -/
def DetectRequest.acting (r : DetectRequest K) (action : String) (drop : Bool) : DetectRequest K :=
  { r with action, drop }

/-- A clipped row: in the measured columns the values outside the fence, and no others, are
moved to the bound they are beyond. -/
structure Clipped (target : List String) (fence : String → Option (K × K)) (row : Row ι K β)
    (d : Detected ι K β) : Prop where
  added : d.added = none
  index : d.row.index = row.index
  others : ∀ col, col ∉ target → d.row.cells col = row.cells col
  changed : ∀ col ∈ target, d.row.cells col ≠ row.cells col ↔ Outside (fence col) (row.value col)
  moved : ∀ col ∈ target, ∀ lower upper x, fence col = some (lower, upper) →
    row.value col = some x → lower ≤ upper ∧ (x < lower → d.row.cells col = .number lower) ∧
      (upper < x → d.row.cells col = .number upper)

/-- What the flag and the score of a row say of its measured values. -/
structure Judged (combine : Combine) (target : List String) (fence : String → Option (K × K))
    (row : Row ι K β) (flag : Bool) (score : Option (WithTop K)) : Prop where
  any : combine = .any → (flag = true ↔ ∃ col ∈ target, Outside (fence col) (row.value col))
  all : combine = .all →
    (flag = true ↔ target ≠ [] ∧ ∀ col ∈ target, Outside (fence col) (row.value col))
  /-- The score is the greatest one of a value. -/
  greatest : ∀ s, score = some s ↔
    (∃ col ∈ target, deviation (fence col) (row.value col) = some s) ∧
      ∀ col ∈ target, ∀ t, deviation (fence col) (row.value col) = some t → t ≤ s
  missing : score = none ↔ ∀ col ∈ target, row.value col = none
  /-- It exceeds one when a value lies outside. -/
  above : (∃ s, score = some s ∧ 1 < s) ↔ ∃ col ∈ target, Outside (fence col) (row.value col)

/-- What the outputs of a request have to do with each other. -/
structure OutlierLaw (df : Frame ι K β) (r : DetectRequest K) : Prop where
  scored : ∀ plan, check_request df.columns r = .ok plan → ∀ row ∈ df.rows, ∀ col ∈ plan.target,
    Scored (plan.fence sqrt (peers r.by_cols df.rows row) col) (row.value col)
  judged : ∀ plan, check_request df.columns r = .ok plan → ∀ row ∈ df.rows,
    Judged plan.combine plan.target (plan.fence sqrt (peers r.by_cols df.rows row)) row
      (plan.is_outlier sqrt (peers r.by_cols df.rows row) row)
      (plan.score sqrt (peers r.by_cols df.rows row) row)
  flagged : ∀ plan out, check_request df.columns (r.acting "flag" false) = .ok plan →
    detect_outliers sqrt df (r.acting "flag" false) = .ok out →
      out = df.rows.map fun row =>
        ⟨row, some (plan.is_outlier sqrt (peers r.by_cols df.rows row) row,
          plan.score sqrt (peers r.by_cols df.rows row) row)⟩
  dropped : ∀ out, detect_outliers sqrt df (r.acting "flag" false) = .ok out →
    ∀ r' ∈ [r.acting "flag" true, r.acting "drop" false, r.acting "drop" true],
      detect_outliers sqrt df r' =
        .ok ((out.filter fun d => d.added.all (!·.1)).map fun d => ⟨d.row, none⟩)
  kept : ∀ plan out, check_request df.columns (r.acting "drop" false) = .ok plan →
    detect_outliers sqrt df (r.acting "drop" false) = .ok out →
      out = (df.rows.filter fun row =>
        !plan.is_outlier sqrt (peers r.by_cols df.rows row) row).map (⟨·, none⟩)
  clipped : ∀ plan out, check_request df.columns (r.acting "clip" false) = .ok plan →
    detect_outliers sqrt df (r.acting "clip" false) = .ok out → List.Forall₂ (fun row d =>
      Clipped plan.target (plan.fence sqrt (peers r.by_cols df.rows row)) row d) df.rows out
  grouped : ∀ plan, check_request df.columns r = .ok plan →
    (∀ sub : List (Row ι K β), detect_outliers sqrt { df with rows := sub }
        { r with columns := some plan.target, by_cols := [] } =
          .ok (sub.filterMap (plan.verdict sqrt sub))) ∧
      detect_outliers sqrt df r = .ok (df.rows.filterMap fun row =>
        plan.verdict sqrt (peers r.by_cols df.rows row) row)

variable {sqrt} {df : Frame ι K β} {r : DetectRequest K}

omit [IsStrictOrderedRing K] in
/-- A request that returns has passed the checks. -/
theorem exists_plan {out : List (Detected ι K β)} (h : detect_outliers sqrt df r = .ok out) :
    ∃ plan, check_request df.columns r = .ok plan := by
  obtain ⟨plan, hplan, -⟩ := Checks.bind_eq_ok.mp h
  exact ⟨plan, hplan⟩

omit [Field K] [IsStrictOrderedRing K] in
theorem mem_peers {by_cols : List String} {rows : List (Row ι K β)} {row : Row ι K β}
    (h : row ∈ rows) : row ∈ peers by_cols rows row :=
  List.mem_filter.mpr ⟨h, decide_eq_true rfl⟩

omit [DecidableEq β] in
theorem fence_le (hsqrt : ∀ x, 0 ≤ sqrt x) {columns : List (String × Kind)} {plan : Plan K}
    (h : check_request columns r = .ok plan) {rows : List (Row ι K β)} {col : String}
    {lower upper : K} (hfence : plan.fence sqrt rows col = some (lower, upper)) :
    lower ≤ upper := by
  obtain ⟨hrule, -, -, -, -, -, hthreshold⟩ := check_request_iff.mp h
  rw [Plan.fence, hthreshold] at hfence
  exact outlier_bounds_le hsqrt hrule hfence

omit [DecidableEq β] in
/-- The score of a value agrees with the fence of its column. -/
theorem scored (hsqrt : ∀ x, 0 ≤ sqrt x) {columns : List (String × Kind)} {plan : Plan K}
    (h : check_request columns r = .ok plan) {rows : List (Row ι K β)} {row : Row ι K β}
    (hrow : row ∈ rows) (col : String) : Scored (plan.fence sqrt rows col) (row.value col) := by
  refine scored_of_ordered (fun lower upper => fence_le hsqrt h) fun hvalue => ?_
  obtain ⟨x, hx⟩ := Option.ne_none_iff_exists'.mp hvalue
  exact exists_outlier_bounds _ _ (List.mem_map.mpr ⟨row, hrow, hx⟩)

omit [IsStrictOrderedRing K] [DecidableEq β] in
theorem is_outlier_any {plan : Plan K} (h : plan.combine = .any) {rows : List (Row ι K β)}
    {row : Row ι K β} : plan.is_outlier sqrt rows row = true ↔
      ∃ col ∈ plan.target, Outside (plan.fence sqrt rows col) (row.value col) := by
  simp only [Plan.is_outlier, h, ← outside_iff]
  split
  next htarget => simp [htarget]
  next => exact List.any_eq_true

omit [IsStrictOrderedRing K] [DecidableEq β] in
theorem is_outlier_all {plan : Plan K} (h : plan.combine = .all) {rows : List (Row ι K β)}
    {row : Row ι K β} : plan.is_outlier sqrt rows row = true ↔ plan.target ≠ [] ∧
      ∀ col ∈ plan.target, Outside (plan.fence sqrt rows col) (row.value col) := by
  simp only [Plan.is_outlier, h, ← outside_iff]
  split
  next htarget => simp [htarget]
  next htarget => rw [List.all_eq_true, and_iff_right htarget]

omit [IsStrictOrderedRing K] [DecidableEq β] in
theorem score_eq_some {plan : Plan K} {rows : List (Row ι K β)} {row : Row ι K β}
    {s : WithTop K} : plan.score sqrt rows row = some s ↔
      (∃ col ∈ plan.target, deviation (plan.fence sqrt rows col) (row.value col) = some s) ∧
        ∀ col ∈ plan.target, ∀ t,
          deviation (plan.fence sqrt rows col) (row.value col) = some t → t ≤ s := by
  rw [Plan.score, List.max?_eq_some_iff, List.mem_filterMap]
  refine and_congr_right fun _ => ?_
  simp only [List.mem_filterMap, forall_exists_index, and_imp]
  exact ⟨fun h col hcol t ht => h t col hcol ht, fun h t col hcol ht => h col hcol t ht⟩

omit [IsStrictOrderedRing K] [DecidableEq β] in
/-- Flag and score follow the fences of the measured values. -/
theorem judged {plan : Plan K} {rows : List (Row ι K β)} {row : Row ι K β}
    (hscored : ∀ col, Scored (plan.fence sqrt rows col) (row.value col)) :
    Judged plan.combine plan.target (plan.fence sqrt rows) row (plan.is_outlier sqrt rows row)
      (plan.score sqrt rows row) := by
  refine ⟨fun h => is_outlier_any h, fun h => is_outlier_all h, fun s => score_eq_some, ?_, ?_⟩
  · rw [Plan.score, List.max?_eq_none_iff, List.filterMap_eq_nil_iff]
    exact forall₂_congr fun col _ => (hscored col).missing
  · constructor
    · rintro ⟨s, hs, hone⟩
      obtain ⟨⟨col, hcol, hdeviation⟩, -⟩ := score_eq_some.mp hs
      exact ⟨col, hcol, (hscored col).above.mp ⟨s, hdeviation, hone⟩⟩
    · rintro ⟨col, hcol, hout⟩
      obtain ⟨t, ht, hone⟩ := (hscored col).above.mpr hout
      cases hs : plan.score sqrt rows row with
      | none =>
          rw [Plan.score, List.max?_eq_none_iff, List.filterMap_eq_nil_iff] at hs
          rw [hs col hcol] at ht
          cases ht
      | some s => exact ⟨s, rfl, hone.trans_le ((score_eq_some.mp hs).2 col hcol t ht)⟩

omit [IsStrictOrderedRing K] [DecidableEq β] in
theorem clip_cells {plan : Plan K} {rows : List (Row ι K β)} {row : Row ι K β} {col : String}
    (hcol : col ∈ plan.target) : (plan.clip sqrt rows row).cells col =
      plan.clip_cell sqrt rows col (row.cells col) := if_pos hcol

omit [IsStrictOrderedRing K] [DecidableEq β] in
/-- Clipping moves the values outside of an ordered fence. -/
theorem clipped_of_ordered {plan : Plan K} {rows : List (Row ι K β)} {row : Row ι K β}
    (hordered : ∀ col lower upper, plan.fence sqrt rows col = some (lower, upper) → lower ≤ upper) :
    Clipped plan.target (plan.fence sqrt rows) row ⟨plan.clip sqrt rows row, none⟩ := by
  refine ⟨rfl, rfl, fun col hcol => if_neg hcol, fun col hcol => ?_, ?_⟩
  · dsimp only
    rw [clip_cells hcol, Row.value]
    cases row.cells col with
    | missing => exact iff_of_false (fun h => h rfl) (by simp [Outside, Cell.value])
    | other b => exact iff_of_false (fun h => h rfl) (by simp [Outside, Cell.value])
    | number x =>
        rw [Plan.clip_cell, ne_eq, Cell.number.injEq]
        exact nearest_ne_iff
  · intro col hcol lower upper x hfence hvalue
    have hle := hordered col lower upper hfence
    have hcell : (plan.clip sqrt rows row).cells col =
        .number (nearest (some (lower, upper)) x) := by
      rw [clip_cells hcol]
      cases hcontent : row.cells col with
      | missing => simp [Row.value, hcontent, Cell.value] at hvalue
      | other b => simp [Row.value, hcontent, Cell.value] at hvalue
      | number y =>
          rw [Row.value, hcontent] at hvalue
          rw [Plan.clip_cell, hfence, Option.some.inj hvalue]
    refine ⟨hle, fun hbelow => ?_, fun habove => ?_⟩
    · rw [hcell, nearest, if_pos hbelow]
    · rw [hcell, nearest, if_neg (not_lt.mpr (hle.trans habove.le)), if_pos habove]

omit [IsStrictOrderedRing K] in
/-- The plan of a request has the request's action. -/
theorem plan_action {columns : List (String × Kind)} {plan : Plan K} {action : Action}
    (h : check_request columns r = .ok plan) (haction : r.effective_action = .ok action) :
    plan.action = action :=
  Except.ok.inj ((check_request_iff.mp h).2.2.1.symm.trans haction)

omit [IsStrictOrderedRing K] in
/-- A request that passes the checks for flagging passes those for dropping. -/
theorem check_request_drop {columns : List (String × Kind)} {plan : Plan K}
    (h : check_request columns (r.acting "flag" false) = .ok plan) {action : String} {drop : Bool}
    (hdrop : (r.acting action drop).effective_action = .ok .drop) :
    check_request columns (r.acting action drop) = .ok { plan with action := .drop } := by
  obtain ⟨hmethod, hcombine, -, hknown, htarget, -, hthreshold⟩ := check_request_iff.mp h
  exact check_request_iff.mpr ⟨hmethod, hcombine, hdrop, hknown, htarget, by simp, hthreshold⟩

omit [IsStrictOrderedRing K] in
/-- Dropping keeps the rows that flagging leaves unflagged. -/
theorem detect_outliers_drop {out : List (Detected ι K β)}
    (h : detect_outliers sqrt df (r.acting "flag" false) = .ok out) {action : String} {drop : Bool}
    (hdrop : (r.acting action drop).effective_action = .ok .drop) :
    detect_outliers sqrt df (r.acting action drop) =
      .ok ((out.filter fun d => d.added.all (!·.1)).map fun d => ⟨d.row, none⟩) := by
  obtain ⟨plan, hplan⟩ := exists_plan h
  have haction : plan.action = .flag := plan_action hplan rfl
  rw [detect_outliers_eq sqrt hplan] at h
  obtain rfl := Except.ok.inj h
  rw [detect_outliers_eq sqrt (check_request_drop hplan hdrop)]
  refine congrArg Except.ok ?_
  rw [← List.filterMap_eq_filter, List.map_filterMap, List.filterMap_filterMap]
  refine List.filterMap_congr fun row _ => ?_
  have hflag : Plan.is_outlier sqrt { plan with action := .drop } (peers r.by_cols df.rows row) row =
      plan.is_outlier sqrt (peers r.by_cols df.rows row) row := rfl
  simp only [Plan.verdict, haction, DetectRequest.acting, Option.bind_some, hflag]
  cases plan.is_outlier sqrt (peers r.by_cols df.rows row) row <;> simp [Option.guard]

/-- Score, flag, filter, clip and grouping agree on every frame. -/
theorem outlier_law (hsqrt : ∀ x, 0 ≤ sqrt x) (df : Frame ι K β) (r : DetectRequest K) :
    OutlierLaw sqrt df r := by
  constructor
  · intro plan hplan row hrow col _
    exact scored hsqrt hplan (mem_peers hrow) col
  · intro plan hplan row hrow
    exact judged fun col => scored hsqrt hplan (mem_peers hrow) col
  · intro plan out hplan hout
    have haction : plan.action = .flag := plan_action hplan rfl
    rw [detect_outliers_eq sqrt hplan] at hout
    rw [← Except.ok.inj hout, ← List.filterMap_eq_map']
    refine List.filterMap_congr fun row _ => ?_
    simp only [Plan.verdict, haction, DetectRequest.acting]
  · intro out hout r' hr'
    simp only [List.mem_cons, List.not_mem_nil, or_false] at hr'
    rcases hr' with rfl | rfl | rfl
    · exact detect_outliers_drop hout rfl
    · exact detect_outliers_drop hout rfl
    · exact detect_outliers_drop hout rfl
  · intro plan out hplan hout
    have haction : plan.action = .drop := plan_action hplan rfl
    rw [detect_outliers_eq sqrt hplan] at hout
    rw [← Except.ok.inj hout, ← List.filterMap_eq_filter, List.map_filterMap]
    refine List.filterMap_congr fun row _ => ?_
    simp only [Plan.verdict, haction, DetectRequest.acting, Option.guard]
    by_cases hflag : plan.is_outlier sqrt (peers r.by_cols df.rows row) row = true <;> simp [hflag]
  · intro plan out hplan hout
    have haction : plan.action = .clip := plan_action hplan rfl
    rw [detect_outliers_eq sqrt hplan] at hout
    obtain rfl := Except.ok.inj hout
    simp only [Plan.verdict, haction, List.filterMap_eq_map', List.forall₂_map_right_iff,
      List.forall₂_same]
    exact fun row _ => clipped_of_ordered fun col lower upper => fence_le hsqrt hplan
  · intro plan hplan
    refine ⟨fun sub => ?_, detect_outliers_eq sqrt hplan⟩
    have hall : ∀ row, peers [] sub row = sub := fun row =>
      List.filter_eq_self.mpr fun _ _ => decide_eq_true rfl
    have hsub : check_request ({ df with rows := sub } : Frame ι K β).columns
        { r with columns := some plan.target, by_cols := [] } = .ok plan :=
      check_request_again hplan
    rw [detect_outliers_eq sqrt hsub]
    simp only [hall]

end Law

/-- Prices of two shops, one of them missing, under labels that repeat. -/
def prices : Frame String ℚ String where
  columns := [("shop", .other), ("price", .numeric)]
  rows := [("x", "a", .number 1), ("x", "b", .number 7), ("y", "a", .missing), ("z", "a", .number 2),
    ("x", "a", .number 90)].map fun row =>
      { index := row.1
        cells := fun col => if col = "shop" then .other row.2.1 else row.2.2 }

def by_shop : DetectRequest ℚ where
  method := "iqr"
  threshold := 1 / 10
  by_cols := ["shop"]

theorem outlier_law_prices : OutlierLaw Rat.sqrt prices by_shop ∧
    ∃ out, detect_outliers Rat.sqrt prices by_shop = .ok out := by
  have hplan : check_request prices.columns by_shop =
      .ok ⟨["price"], .iqr, 1 / 10, .any, .flag⟩ := by decide +kernel
  exact ⟨outlier_law Rat.sqrt_nonneg prices by_shop, _, detect_outliers_eq Rat.sqrt hplan⟩

end EmergentFlow.Outliers
