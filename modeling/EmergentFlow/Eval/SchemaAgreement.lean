import EmergentFlow.Eval.SchemaCheck

/-!
# Eval — SchemaAgreement

When the two schema checkers give one answer, and when they answer at all.
Both raise on the same schemas. They disagree on a whole-number float under
`"integer"`, which only the node rejects, and on what stands under a type
they do not know, where only the scorer looks.
-/

namespace EmergentFlow

open Relation

namespace SchemaChecker

variable {c : SchemaChecker} {x : Json × Json}

/-- A value and a schema that the checker comes to from others. -/
def Reaches (c : SchemaChecker) : Json × Json → Json × Json → Prop :=
  TreeCheck.Walk.Reaches ⟨c.own, c.children⟩

/-- The checker does not raise at the value: the schema is an object, its
type can be looked up, and, where the checker looks inside an object,
`required` lists names and `properties` is an object. -/
def Readable (c : SchemaChecker) (x : Json × Json) : Prop :=
  x.2.isObj = true ∧ (∀ type, keyword x.2 "type" = some type → type.hashable = true) ∧
    (c.accepts x.1 x.2 = true → x.1.isObj = true →
      c.looks_into "object" (keyword x.2 "type") = true →
      (∃ reqs, iterate (required x.2) = .ok reqs ∧ ∀ req ∈ reqs, req.hashable = true) ∧
        (properties x.2).isObj = true)

/-- The value itself is at fault: its type, or a name that it lacks. -/
def Faulty (c : SchemaChecker) (x : Json × Json) : Prop :=
  c.accepts x.1 x.2 = false ∨
    ∃ members reqs req, x.1 = .obj members ∧ c.looks_into "object" (keyword x.2 "type") = true ∧
      iterate (required x.2) = .ok reqs ∧ req ∈ reqs ∧ lacks members req = true

/-! ## What is found at a value -/

theorem check_required_eq_ok {members : List (String × Json)} {req : Json}
    {found : List SchemaFinding} : check_required members req = .ok found ↔
      req.hashable = true ∧ found = if lacks members req then [.missing req] else [] := by
  rw [check_required, Checks.then_eq_ok, Checks.guard_eq_ok]
  exact and_congr_right fun _ => ⟨fun h => (Except.ok.inj h).symm, fun h => by rw [h]; rfl⟩

theorem check_object_returns {members : List (String × Json)} {schema : Json} :
    (∃ found, check_object members schema = .ok found) ↔
      (∃ reqs, iterate (required schema) = .ok reqs ∧ ∀ req ∈ reqs, req.hashable = true) ∧
        (properties schema).isObj = true := by
  constructor
  · rintro ⟨found, h⟩
    obtain ⟨reqs, hreqs, h⟩ := Checks.bind_eq_ok.mp h
    obtain ⟨parts, hparts, h⟩ := Checks.bind_eq_ok.mp h
    obtain ⟨hprops, -⟩ := Checks.then_eq_ok.mp h
    refine ⟨⟨reqs, hreqs, fun req hreq => ?_⟩, Checks.guard_eq_ok.mp hprops⟩
    obtain ⟨part, -, hpart⟩ := Checks.mem_left_of_mapM hparts hreq
    exact (check_required_eq_ok.mp hpart).1
  · rintro ⟨⟨reqs, hreqs, hhashable⟩, hprops⟩
    obtain ⟨parts, hparts⟩ := Checks.mapM_exists fun req hreq =>
      ⟨_, check_required_eq_ok.mpr ⟨hhashable req hreq, rfl⟩⟩
    exact ⟨parts.flatten, Checks.bind_eq_ok.mpr ⟨reqs, hreqs, Checks.bind_eq_ok.mpr
      ⟨parts, hparts, Checks.then_eq_ok.mpr ⟨Checks.guard_eq_ok.mpr hprops, rfl⟩⟩⟩⟩

/-- Nothing is found on an object that lacks no name. -/
theorem check_object_nil {members : List (String × Json)} {schema : Json}
    {found : List SchemaFinding} (h : check_object members schema = .ok found) :
    found = [] ↔ ¬ ∃ reqs req, iterate (required schema) = .ok reqs ∧ req ∈ reqs ∧
      lacks members req = true := by
  obtain ⟨reqs, hreqs, h⟩ := Checks.bind_eq_ok.mp h
  obtain ⟨parts, hparts, h⟩ := Checks.bind_eq_ok.mp h
  obtain ⟨-, h⟩ := Checks.then_eq_ok.mp h
  cases h
  rw [List.flatten_eq_nil_iff]
  constructor
  · rintro hnil ⟨reqs', req, hreqs', hreq, hlacks⟩
    cases hreqs.symm.trans hreqs'
    obtain ⟨part, hmem, hpart⟩ := Checks.mem_left_of_mapM hparts hreq
    have hfound := (check_required_eq_ok.mp hpart).2
    rw [hnil part hmem, if_pos hlacks] at hfound
    cases hfound
  · intro hnone part hmem
    obtain ⟨req, hreq, hpart⟩ := Checks.mem_right_of_mapM hparts hmem
    rw [(check_required_eq_ok.mp hpart).2, if_neg]
    exact fun hlacks => hnone ⟨reqs, req, hreqs, hreq, hlacks⟩

/-- Behind its two checks of the schema, `own` is about the value. -/
theorem own_eq_ok {found : List SchemaFinding} : c.own x = .ok found ↔
    x.2.isObj = true ∧ (∀ type, keyword x.2 "type" = some type → type.hashable = true) ∧
      c.inspect x = .ok found := by
  have htype : ((keyword x.2 "type").map Json.hashable).getD true = true ↔
      ∀ type, keyword x.2 "type" = some type → type.hashable = true := by
    cases keyword x.2 "type" with
    | none => exact ⟨fun _ _ h => (nomatch h), fun _ => rfl⟩
    | some type => exact ⟨fun h _ heq => Option.some.inj heq ▸ h, fun h => h type rfl⟩
  rw [own, Checks.then_eq_ok, Checks.guard_eq_ok, Checks.then_eq_ok, Checks.guard_eq_ok, htype]

theorem own_returns : (∃ found, c.own x = .ok found) ↔ c.Readable x := by
  obtain ⟨data, schema⟩ := x
  simp only [own_eq_ok, exists_and_left, Readable, inspect]
  refine and_congr_right fun _ => and_congr_right fun _ => ?_
  cases haccepts : c.accepts data schema with
  | false =>
      refine ⟨?_, fun _ => ⟨_, rfl⟩⟩
      intro _ haccepted
      cases haccepted
  | true =>
      cases data with
      | obj members =>
          cases hlooks : c.looks_into "object" (keyword schema "type") with
          | false =>
              refine ⟨?_, fun _ => ⟨_, rfl⟩⟩
              intro _ _ _ hlooked
              cases hlooked
          | true =>
              exact check_object_returns.trans ⟨fun h _ _ _ => h, fun h => h rfl rfl rfl⟩
      | _ =>
          refine ⟨?_, fun _ => ⟨_, rfl⟩⟩
          intro _ _ hobj
          cases hobj

theorem own_nil (h : c.Readable x) : c.own x = .ok [] ↔ ¬ c.Faulty x := by
  obtain ⟨data, schema⟩ := x
  obtain ⟨found, hfound⟩ := own_returns.mpr h
  rw [hfound, Except.ok.injEq]
  obtain ⟨-, -, hfound⟩ := own_eq_ok.mp hfound
  rw [Faulty]
  simp only [inspect] at hfound
  cases haccepts : c.accepts data schema with
  | false =>
      rw [haccepts] at hfound
      cases hfound
      constructor
      · intro hnil
        cases hnil
      · intro hsound
        exact absurd (.inl rfl) hsound
  | true =>
      rw [haccepts] at hfound
      simp only [Bool.true_eq_false, false_or]
      cases data with
      | obj members =>
          cases hlooks : c.looks_into "object" (keyword schema "type") with
          | false =>
              rw [hlooks] at hfound
              cases hfound
              refine ⟨?_, fun _ => rfl⟩
              rintro - ⟨_, _, _, -, hlooks, -⟩
              cases hlooks
          | true =>
              rw [hlooks] at hfound
              -- an object that is looked into can still lack a required key
              rw [check_object_nil hfound]
              apply not_congr
              constructor
              · rintro ⟨reqs, req, h⟩
                exact ⟨members, reqs, req, rfl, rfl, h⟩
              · rintro ⟨_, reqs, req, heq, -, h⟩
                cases heq
                exact ⟨reqs, req, h⟩
      | _ =>
          cases hfound
          refine ⟨?_, fun _ => rfl⟩
          rintro - ⟨_, _, _, hobj, -⟩
          cases hobj

/-! ## What a whole walk finds -/

section Walk

variable {π μ : Type} {report : π → SchemaFinding → μ} {extend : π → SchemaStep → π} {path : π}

theorem validate_returns : (∃ found, c.validate report extend path x = .ok found) ↔
    ∀ y, c.Reaches x y → c.Readable y :=
  ((c.run_by report extend).returns_iff path x).trans
    (forall₂_congr fun _ _ => own_returns)

/-- Nothing is found exactly when no value that is reached is at fault. -/
theorem validate_nil {found : List μ} (h : c.validate report extend path x = .ok found) :
    found = [] ↔ ¬ ∃ y, c.Reaches x y ∧ c.Faulty y := by
  have hreadable := validate_returns.mp ⟨found, h⟩
  rw [(c.run_by report extend).nil_iff h]
  constructor
  · rintro hnil ⟨y, hy, hfaulty⟩
    exact (own_nil (hreadable y hy)).mp (hnil y hy) hfaulty
  · intro hnone y hy
    exact (own_nil (hreadable y hy)).mpr fun hfaulty => hnone ⟨y, hy, hfaulty⟩

end Walk

end SchemaChecker

/-! ## The two checkers at one value -/

/-- The type keyword is absent or one of the seven. -/
def KnownType (schema : Json) : Prop :=
  ∀ type, keyword schema "type" = some type → (TYPE_MAP type).isSome = true

/-- A whole-number float under `"integer"`. -/
def FloatForInteger (x : Json × Json) : Prop :=
  keyword x.2 "type" = some (.str "integer") ∧ whole_float x.1 = true

section Compare

variable {x y z : Json × Json}

theorem TYPE_MAP_object {type : Json} (h : TYPE_MAP type = some .object) :
    type = .str "object" := by
  unfold TYPE_MAP at h
  split at h <;> first | rfl | cases h

theorem TYPE_MAP_array {type : Json} (h : TYPE_MAP type = some .array) : type = .str "array" := by
  unfold TYPE_MAP at h
  split at h <;> first | rfl | cases h

theorem TYPE_MAP_integer {type : Json} (h : TYPE_MAP type = some .integer) :
    type = .str "integer" := by
  unfold TYPE_MAP at h
  split at h <;> first | rfl | cases h

/-- What passes the node's type check passes the scorer's, and only a
whole-number float passes the scorer's alone. -/
theorem score_accepts_iff : score_checker.accepts x.1 x.2 = true ↔
    llm_checker.accepts x.1 x.2 = true ∨ FloatForInteger x := by
  rw [SchemaChecker.accepts, SchemaChecker.accepts, FloatForInteger]
  cases htype : keyword x.2 "type" with
  | none => simp
  | some type =>
      rw [Option.bind_some, Option.some.injEq]
      cases hmap : TYPE_MAP type with
      | none => simp
      | some t =>
          simp only [score_checker, llm_checker, Bool.or_eq_true, Bool.and_eq_true,
            decide_eq_true_eq]
          refine or_congr_right (and_congr_left fun _ => ⟨?_, ?_⟩)
          · rintro rfl
            exact TYPE_MAP_integer hmap
          · rintro rfl
            exact (Option.some.inj hmap).symm

theorem whole_float_cases {data : Json} (h : whole_float data = true) :
    ∃ f, data = .float f := by
  cases data with
  | float f => exact ⟨f, rfl⟩
  | _ => cases h

theorem FloatForInteger.not_llm_accepts (h : FloatForInteger x) :
    llm_checker.accepts x.1 x.2 = false := by
  obtain ⟨htype, hfloat⟩ := h
  obtain ⟨f, hf⟩ := whole_float_cases hfloat
  rw [SchemaChecker.accepts, htype, hf]
  rfl

/-- An object or list that passes a known type stands under its own. -/
theorem looks_into_of_known (hknown : KnownType x.2)
    (haccepts : score_checker.accepts x.1 x.2 = true) :
    (x.1.isObj = true → llm_checker.looks_into "object" (keyword x.2 "type") = true) ∧
      (∀ items, x.1 = .arr items → llm_checker.looks_into "array" (keyword x.2 "type") = true) := by
  cases htype : keyword x.2 "type" with
  | none => exact ⟨fun _ => rfl, fun _ _ => rfl⟩
  | some type =>
      obtain ⟨t, ht⟩ := Option.isSome_iff_exists.mp (hknown type htype)
      rw [SchemaChecker.accepts, htype, Option.bind_some, ht] at haccepts
      constructor
      · intro hobj
        cases hdata : x.1 with
        | obj members =>
            rw [hdata] at haccepts
            cases t with
            | object =>
                rw [TYPE_MAP_object ht]
                rfl
            | _ => cases haccepts
        | _ =>
            rw [hdata] at hobj
            cases hobj
      · rintro items hdata
        rw [hdata] at haccepts
        cases t with
        | array =>
            rw [TYPE_MAP_array ht]
            rfl
        | _ => cases haccepts

/-- Where the node finds fault, the scorer does too, or there is a
whole-number float under `"integer"`. -/
theorem llm_faulty_iff : llm_checker.Faulty x ↔
    (KnownType x.2 ∧ score_checker.Faulty x) ∨ FloatForInteger x := by
  have hmismatch : ∀ {b c : Bool}, (b = true ↔ c = true ∨ FloatForInteger x) →
      c = false → b = false ∨ FloatForInteger x := by
    intro b c hiff hc
    cases b with
    | false => exact .inl rfl
    | true =>
        rcases hiff.mp rfl with h | h
        · cases hc.symm.trans h
        · exact .inr h
  constructor
  · rintro (hrejects | ⟨members, reqs, req, hdata, hlooks, hreqs, hreq, hlacks⟩)
    · rcases hmismatch score_accepts_iff hrejects with hscore | hfloat
      · refine .inl ⟨fun type htype => ?_, .inl hscore⟩
        rw [SchemaChecker.accepts, htype, Option.bind_some] at hscore
        cases ht : TYPE_MAP type with
        | none =>
            rw [ht] at hscore
            cases hscore
        | some t => rfl
      · exact .inr hfloat
    · refine .inl ⟨fun type htype => ?_, .inr ⟨members, reqs, req, hdata, rfl, hreqs, hreq, hlacks⟩⟩
      rw [htype] at hlooks
      -- an unknown type would not have let the other checker look in
      cases type with
      | str s =>
          have hs : s = "object" := of_decide_eq_true hlooks
          rw [hs]
          rfl
      | _ => cases hlooks
  · rintro (⟨hknown, hfaulty⟩ | hfloat)
    · cases hllm : llm_checker.accepts x.1 x.2 with
      | false => exact .inl hllm
      | true =>
          rcases hfaulty with hrejects | ⟨members, reqs, req, hdata, -, hrest⟩
          · cases hrejects.symm.trans (score_accepts_iff.mpr (.inl hllm))
          · have hobj : x.1.isObj = true := by rw [hdata]; rfl
            have hlooks := looks_into_of_known hknown (score_accepts_iff.mpr (.inl hllm))
            exact .inr ⟨members, reqs, req, hdata, hlooks.1 hobj, hrest⟩
    · exact .inl hfloat.not_llm_accepts

/-- The node goes on only where the scorer does. -/
theorem llm_children_subset {step : SchemaStep} (h : (step, y) ∈ llm_checker.children x) :
    (step, y) ∈ score_checker.children x := by
  simp only [SchemaChecker.children] at h ⊢
  cases hllm : llm_checker.accepts x.1 x.2 with
  | false =>
      rw [hllm] at h
      cases h
  | true =>
      rw [hllm] at h
      rw [score_accepts_iff.mpr (.inl hllm)]
      simp only [Bool.not_true, Bool.false_eq_true, if_false] at h ⊢
      cases hdata : x.1 with
      | obj members =>
          rw [hdata] at h
          simp only at h
          split at h
          · exact h
          · cases h
      | arr items =>
          rw [hdata] at h
          simp only at h
          split at h
          · exact h
          · cases h
      | _ =>
          rw [hdata] at h
          cases h

/-- Under a type they know both go on alike. -/
theorem score_children_subset {step : SchemaStep} (hknown : KnownType x.2)
    (h : (step, y) ∈ score_checker.children x) : (step, y) ∈ llm_checker.children x := by
  simp only [SchemaChecker.children] at h ⊢
  cases hscore : score_checker.accepts x.1 x.2 with
  | false =>
      rw [hscore] at h
      cases h
  | true =>
      obtain ⟨hobject, harray⟩ := looks_into_of_known hknown hscore
      rw [hscore] at h
      have hllm : llm_checker.accepts x.1 x.2 = true ∨ FloatForInteger x :=
        score_accepts_iff.mp hscore
      rcases hllm with hllm | ⟨-, hfloat⟩
      · rw [hllm]
        simp only [Bool.not_true, Bool.false_eq_true, if_false] at h ⊢
        cases hdata : x.1 with
        | obj members =>
            rw [hdata] at h
            simp only
            rw [if_pos (hobject (by rw [hdata]; rfl))]
            exact h
        | arr items =>
            rw [hdata] at h
            simp only
            rw [if_pos (harray items hdata)]
            exact h
        | _ =>
            rw [hdata] at h
            cases h
      · -- a float has no children at all
        obtain ⟨f, hf⟩ := whole_float_cases hfloat
        rw [hf] at h
        cases h

theorem llm_reaches_subset (h : llm_checker.Reaches x y) : score_checker.Reaches x y := by
  induction h with
  | refl => exact .refl
  | tail _ hstep ih =>
      obtain ⟨step, hstep⟩ := hstep
      exact .tail ih ⟨step, llm_children_subset hstep⟩

/-- What the scorer reaches the node reaches too, up to an unknown type. -/
theorem reaches_cases (h : score_checker.Reaches x z) :
    llm_checker.Reaches x z ∨
      ∃ y, llm_checker.Reaches x y ∧ ¬ KnownType y.2 ∧ score_checker.Reaches y z := by
  induction h with
  | refl => exact .inl .refl
  | @tail y z hpath hstep ih =>
      rcases ih with hy | ⟨u, hu, hunknown, huy⟩
      · by_cases hknown : KnownType y.2
        · obtain ⟨step, hstep⟩ := hstep
          exact .inl (.tail hy ⟨step, score_children_subset hknown hstep⟩)
        · exact .inr ⟨y, hy, hknown, .single hstep⟩
      · exact .inr ⟨u, hu, hunknown, .tail huy hstep⟩

/-- The node raises at no schema that the scorer can read. -/
theorem llm_readable (h : score_checker.Readable x) : llm_checker.Readable x := by
  obtain ⟨hobj, htype, hinside⟩ := h
  exact ⟨hobj, htype, fun haccepts hdata _ =>
    hinside (score_accepts_iff.mpr (.inl haccepts)) hdata rfl⟩

end Compare

/-! ## Agreement -/

/-- Both checkers return, and one finds nothing exactly when the other does. -/
def SchemaCheckersAgree (data schema : Json) : Prop :=
  ∃ found found', validate_json_schema data schema "$" = .ok found ∧
    json_schema_violations data schema = .ok found' ∧ (found = [] ↔ found' = [])

/-- Some value is at fault for both, by a type they know or a missing name. -/
def RejectedByBoth (x : Json × Json) : Prop :=
  ∃ y, llm_checker.Reaches x y ∧ KnownType y.2 ∧ score_checker.Faulty y

/-- The node comes to a whole-number float under `"integer"`. -/
def RejectedByNode (x : Json × Json) : Prop :=
  ∃ y, llm_checker.Reaches x y ∧ FloatForInteger y

/-- At or inside a value of an unknown type, something is at fault. -/
def RejectedByScorer (x : Json × Json) : Prop :=
  ∃ y, llm_checker.Reaches x y ∧ ¬ KnownType y.2 ∧
    ∃ z, score_checker.Reaches y z ∧ score_checker.Faulty z

theorem llm_finds_iff {x : Json × Json} : (∃ y, llm_checker.Reaches x y ∧ llm_checker.Faulty y) ↔
    RejectedByBoth x ∨ RejectedByNode x := by
  simp only [llm_faulty_iff, and_or_left, exists_or]
  rfl

theorem score_finds_iff {x : Json × Json} :
    (∃ z, score_checker.Reaches x z ∧ score_checker.Faulty z) ↔
      RejectedByBoth x ∨ RejectedByScorer x := by
  constructor
  · rintro ⟨z, hz, hfaulty⟩
    rcases reaches_cases hz with hllm | ⟨y, hy, hunknown, hyz⟩
    · by_cases hknown : KnownType z.2
      · exact .inl ⟨z, hllm, hknown, hfaulty⟩
      · exact .inr ⟨z, hllm, hknown, z, .refl, hfaulty⟩
    · exact .inr ⟨y, hy, hunknown, z, hyz, hfaulty⟩
  · rintro (⟨y, hy, -, hfaulty⟩ | ⟨y, hy, -, z, hz, hfaulty⟩)
    · exact ⟨y, llm_reaches_subset hy, hfaulty⟩
    · exact ⟨z, (llm_reaches_subset hy).trans hz, hfaulty⟩

/-- The checkers agree exactly when every schema that is reached can be read
and either both reject some value, or the values that one of them alone
rejects are there for both or for neither. -/
theorem schema_checkers_agree_iff (data schema : Json) : SchemaCheckersAgree data schema ↔
    (∀ y, score_checker.Reaches (data, schema) y → score_checker.Readable y) ∧
      (RejectedByBoth (data, schema) ∨
        (RejectedByNode (data, schema) ↔ RejectedByScorer (data, schema))) := by
  constructor
  · rintro ⟨found, found', hllm, hscore, hiff⟩
    refine ⟨SchemaChecker.validate_returns.mp ⟨found', hscore⟩, ?_⟩
    rw [SchemaChecker.validate_nil hllm, SchemaChecker.validate_nil hscore, llm_finds_iff,
      score_finds_iff] at hiff
    tauto
  · rintro ⟨hreadable, hcases⟩
    obtain ⟨found', hscore⟩ : ∃ found', json_schema_violations data schema = .ok found' :=
      SchemaChecker.validate_returns.mpr hreadable
    obtain ⟨found, hllm⟩ : ∃ found, validate_json_schema data schema "$" = .ok found :=
      SchemaChecker.validate_returns.mpr fun y hy =>
        llm_readable (hreadable y (llm_reaches_subset hy))
    refine ⟨found, found', hllm, hscore, ?_⟩
    rw [SchemaChecker.validate_nil hllm, SchemaChecker.validate_nil hscore, llm_finds_iff,
      score_finds_iff]
    tauto

/-- The value `3.0` is no integer for the node and one for the scorer. -/
theorem whole_float_disagrees :
    ¬ SchemaCheckersAgree (.float (.finite 3)) (.obj [("type", .str "integer")]) := by
  rintro ⟨found, found', hllm, hscore, hiff⟩
  rw [validate_json_schema, SchemaChecker.validate] at hllm
  rw [json_schema_violations, SchemaChecker.validate] at hscore
  cases hscore
  cases hllm
  cases hiff.mpr rfl

end EmergentFlow
