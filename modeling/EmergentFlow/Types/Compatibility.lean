import EmergentFlow.Ir.Graph
import EmergentFlow.Lib.Runs
import EmergentFlow.Types.Registry

/-!
# Types — Compatibility

The three-valued compatibility of port types (`types/compatibility.py`) and
the laws of the registry over any history of registrations, some of which
raise.
-/

namespace EmergentFlow

/-! ## Verdicts -/

/-- Three-valued verdict for a type-compatibility check. -/
inductive Compatibility where
  | COMPATIBLE
  | INCOMPATIBLE
  | UNKNOWN
  deriving DecidableEq, Repr

structure CompatibilityResult where
  verdict : Compatibility
  reason : String
  source_type : String
  target_type : String
  deriving DecidableEq, Repr

/-- The tokens the registry does not know, as the reason names them. -/
def unknown_detail (source_known target_known : Bool) (source_type target_type : String) : String :=
  if !source_known && !target_known then
    if source_type ≠ target_type then
      "types '" ++ source_type ++ "' and '" ++ target_type ++ "' are not registered"
    else "type '" ++ source_type ++ "' is not registered"
  else if !source_known then "source type '" ++ source_type ++ "' is not registered"
  else "target type '" ++ target_type ++ "' is not registered"

/-- `is_compatible`: wildcard, unknown, exact, subtype, in this order. -/
def is_compatible (r : TypeRegistry) (source_type target_type : String) : CompatibilityResult :=
  let result verdict reason :=
    { verdict := verdict, reason := reason, source_type := source_type, target_type := target_type }
  if target_type = TOP_TYPE then
    result .COMPATIBLE ("compatible: target type is the wildcard '" ++ TOP_TYPE ++
      "', which accepts any source type (source '" ++ source_type ++ "')")
  else if source_type = TOP_TYPE then
    result .COMPATIBLE ("compatible: source type is the wildcard '" ++ TOP_TYPE ++
      "', which connects to any target type (target '" ++ target_type ++ "')")
  -- the wildcards come first, so they accept unregistered types as well
  else if !r.is_registered source_type || !r.is_registered target_type then
    result .UNKNOWN ("unknown: " ++ unknown_detail (r.is_registered source_type)
      (r.is_registered target_type) source_type target_type ++
      ", so compatibility cannot be determined (source '" ++ source_type ++ "', target '" ++
      target_type ++ "')")
  else if source_type = target_type then
    result .COMPATIBLE ("compatible: exact type match ('" ++ source_type ++ "')")
  else if r.is_subtype source_type target_type then
    result .COMPATIBLE ("compatible: source '" ++ source_type ++
      "' is a registered subtype of target '" ++ target_type ++ "'")
  else
    result .INCOMPATIBLE ("incompatible: target expects '" ++ target_type ++
      "', but source produces '" ++ source_type ++ "'")

theorem is_compatible_iff {r : TypeRegistry} {source target : String} :
    (is_compatible r source target).verdict = .COMPATIBLE ↔
      target = TOP_TYPE ∨ source = TOP_TYPE ∨
        (r.is_registered source = true ∧ r.is_registered target = true ∧
          (source = target ∨ r.is_subtype source target = true)) := by
  unfold is_compatible
  split
  next h => simp [h]
  next htarget =>
    split
    next h => simp [h]
    next hsource =>
      split
      next h =>
        simp only [htarget, hsource, false_or, reduceCtorEq, false_iff]
        rintro ⟨hs, ht, -⟩
        simp [hs, ht] at h
      next h =>
        rw [Bool.or_eq_true, not_or, Bool.not_eq_true', Bool.not_eq_true', Bool.not_eq_false,
          Bool.not_eq_false] at h
        split
        next heq => simp [heq ▸ h.1, heq]
        next hne =>
          split
          next hsub => simp [h, hsub]
          next hsub => simp [htarget, hsource, hne, hsub]

/-! ## Cardinality -/

structure CardinalityResult where
  ok : Bool
  reason : String
  cardinality : Cardinality
  inbound_count : Nat
  deriving DecidableEq, Repr

/-- `check_cardinality`. -/
def check_cardinality (cardinality : Cardinality) (inbound_count : Nat) (port_name : String) :
    CardinalityResult :=
  let location := if port_name ≠ "" then "port '" ++ port_name ++ "' " else ""
  let count := toString inbound_count
  match cardinality with
  | .ONE =>
      if 1 < inbound_count then {
        ok := false, cardinality, inbound_count
        reason := "cardinality violation: " ++ location ++
          "IN port with cardinality 'one' accepts a single inbound edge but has " ++ count }
      else {
        ok := true, cardinality, inbound_count
        reason := "ok: " ++ location ++ "IN port with cardinality 'one' has " ++ count ++
          " inbound edge(s) (max 1)" }
  | .MANY => {
      ok := true, cardinality, inbound_count
      reason := "ok: " ++ location ++ "IN port with cardinality 'many' permits fan-in (" ++ count ++
        " inbound edge(s))" }

theorem check_cardinality_ok {c : Cardinality} {n : Nat} {name : String} :
    (check_cardinality c n name).ok = true ↔ (c = .ONE → n ≤ 1) := by
  unfold check_cardinality
  cases c with
  | ONE =>
      simp only [forall_const]
      split
      · rename_i h
        simp only [Bool.false_eq_true, false_iff]
        omega
      · rename_i h
        simp only [true_iff]
        omega
  | MANY => simp

/-! ## Histories -/

/-- The registry after a call of `register`, whether it returned or
raised. -/
def TypeRegistry.after (r : TypeRegistry) (typedef : TypeDef) : TypeRegistry :=
  (TypeRegistry.register typedef r).2

/-- The registry after a history of registrations. -/
def registered (history : List TypeDef) : TypeRegistry :=
  Runs.run TypeRegistry.after .new history

/-- One of the calls has registered this type. -/
def Accepted (history : List TypeDef) (typedef : TypeDef) : Prop :=
  ∃ pre post, history = pre ++ typedef :: post ∧
    (TypeRegistry.register typedef (registered pre)).1 = .ok typedef

theorem registered_concat (history : List TypeDef) (typedef : TypeDef) :
    registered (history ++ [typedef]) = (registered history).after typedef :=
  Runs.run_concat history typedef

theorem accepted_concat {history : List TypeDef} {t typedef : TypeDef} :
    Accepted (history ++ [t]) typedef ↔ Accepted history typedef ∨
      (typedef = t ∧ (TypeRegistry.register t (registered history)).1 = .ok t) := by
  constructor
  · rintro ⟨pre, post, hsplit, hok⟩
    rcases Runs.concat_eq_split.mp hsplit with ⟨-, rfl, rfl⟩ | ⟨rest, -, hrest⟩
    · exact .inr ⟨rfl, hok⟩
    · exact .inl ⟨pre, rest, hrest, hok⟩
  · rintro (⟨pre, post, rfl, hok⟩ | ⟨rfl, hok⟩)
    · exact ⟨pre, post ++ [t], by simp, hok⟩
    · exact ⟨history, [], rfl, hok⟩

namespace TypeRegistry

variable {r : TypeRegistry}

/-- A call raises and leaves the registry, confirms a registered type, or
adds a token that closes no cycle. -/
theorem after_cases (r : TypeRegistry) (t : TypeDef) :
    (r.after t = r ∧ (register t r).1 ≠ .ok t) ∨
      (r.after t = r ∧ (register t r).1 = .ok t ∧ r.defs.get? t.token = some t) ∨
      (r.after t = r.add t ∧ (register t r).1 = .ok t ∧ r.defs.get? t.token = none ∧
        ∀ st ∈ t.supertypes, ¬ Relation.ReflTransGen (r.add t).Parent st t.token) := by
  rcases hrun : register t r with ⟨e | t', r'⟩
  · refine .inl ⟨?_, by simp⟩
    rw [after, hrun]
    exact register_atomic t _ _ _ hrun
  · have hafter : r.after t = r' := congrArg Prod.snd hrun
    obtain ⟨rfl, hspec⟩ := register_spec hrun
    rcases hspec with ⟨hget, rfl⟩ | ⟨hget, rfl, hback⟩
    · exact .inr (.inl ⟨hafter, rfl, hget⟩)
    · exact .inr (.inr ⟨hafter, rfl, hget, hback⟩)

/-- Registered types stay as they are. -/
def Grows (r r' : TypeRegistry) : Prop := ∀ k d, r.defs.get? k = some d → r'.defs.get? k = some d

theorem grows_after (r : TypeRegistry) (t : TypeDef) : Grows r (r.after t) := by
  intro k d h
  rcases r.after_cases t with ⟨heq, -⟩ | ⟨heq, -⟩ | ⟨heq, -, hnew, -⟩
  · rwa [heq]
  · rwa [heq]
  · have hne : t.token ≠ k := by
      rintro rfl
      rw [hnew] at h
      cases h
    rw [heq, add, Dict.get?_set_ne _ _ hne, h]

theorem Grows.parent {r' : TypeRegistry} (h : Grows r r') {a b : String} (hab : r.Parent a b) :
    r'.Parent a b := by
  rw [Parent, Worklist.Step, declared] at hab ⊢
  cases hget : r.defs.get? a with
  | none => simp [hget] at hab
  | some d => rwa [h a d hget, ← hget]

theorem Grows.is_registered {r' : TypeRegistry} (h : Grows r r') {token : String}
    (ht : r.is_registered token = true) : r'.is_registered token = true := by
  obtain ⟨d, hd⟩ := (Dict.contains_iff _).mp ht
  exact (Dict.contains_iff _).mpr ⟨d, h _ _ hd⟩

/-! ## The invariant -/

/-- What every registry has: the top type as it was seeded, and no cycle. -/
structure Inv (r : TypeRegistry) : Prop where
  top : r.defs.get? TOP_TYPE = some top_typedef
  acyclic : Closure.Acyclic r.Parent

theorem inv_new : Inv new := by
  refine ⟨rfl, fun a hcycle => ?_⟩
  obtain ⟨b, hab, -⟩ := Relation.TransGen.head'_iff.mp hcycle
  rw [Parent, Worklist.Step, declared, new, Dict.get?_set] at hab
  split at hab <;> cases hab

theorem inv_after (h : r.Inv) (t : TypeDef) : (r.after t).Inv := by
  refine ⟨r.grows_after t _ _ h.top, ?_⟩
  rcases r.after_cases t with ⟨heq, -⟩ | ⟨heq, -⟩ | ⟨heq, -, hnew, hback⟩
  · rw [heq]
    exact h.acyclic
  · rw [heq]
    exact h.acyclic
  · rw [parent_add hnew] at hback
    rw [heq, parent_add hnew]
    exact h.acyclic.extend hback

/-- The top type has no declared supertype. -/
theorem Inv.not_parent_top (h : r.Inv) {b : String} : ¬ Relation.TransGen r.Parent TOP_TYPE b := by
  intro hpath
  obtain ⟨c, hc, -⟩ := Relation.TransGen.head'_iff.mp hpath
  rw [Parent, Worklist.Step, declared, h.top] at hc
  cases hc

theorem Inv.is_subtype_iff (h : r.Inv) {sub sup : String} :
    r.is_subtype sub sup = true ↔
      (sup = TOP_TYPE ∧ sub ≠ TOP_TYPE) ∨ Relation.TransGen r.Parent sub sup := by
  rw [is_subtype]
  by_cases heq : sub = sup
  · subst heq
    rw [if_pos rfl]
    refine iff_of_false Bool.false_ne_true ?_
    rintro (⟨htop, hne⟩ | hcycle)
    · exact hne htop
    · exact h.acyclic sub hcycle
  · rw [if_neg heq]
    by_cases htop : sup = TOP_TYPE
    · subst htop
      simp [heq]
    · rw [if_neg htop, List.contains_iff_mem, mem_supertypes_of]

/-- A subtype stays one, and so does a compatible pair. -/
theorem Inv.is_subtype_grows {r' : TypeRegistry} (h : r.Inv) (h' : r'.Inv) (hgrows : Grows r r')
    {sub sup : String} (hsub : r.is_subtype sub sup = true) : r'.is_subtype sub sup = true := by
  rw [h.is_subtype_iff] at hsub
  rw [h'.is_subtype_iff]
  have hmono : Relation.TransGen r.Parent ≤ Relation.TransGen r'.Parent :=
    Relation.TransGen.mono fun _ _ => hgrows.parent
  exact hsub.imp_right (hmono sub sup)

theorem Inv.compatible_grows {r' : TypeRegistry} (h : r.Inv) (h' : r'.Inv) (hgrows : Grows r r')
    {source target : String} (hok : (is_compatible r source target).verdict = .COMPATIBLE) :
    (is_compatible r' source target).verdict = .COMPATIBLE := by
  rw [is_compatible_iff] at hok ⊢
  rcases hok with htarget | hsource | ⟨hsource, htarget, hrelated⟩
  · exact .inl htarget
  · exact .inr (.inl hsource)
  · exact .inr (.inr ⟨hgrows.is_registered hsource, hgrows.is_registered htarget,
      hrelated.imp_right (h.is_subtype_grows h' hgrows)⟩)

end TypeRegistry

/-! ## Laws of a history -/

open TypeRegistry

theorem registered_inv (history : List TypeDef) : (registered history).Inv :=
  Runs.invariant inv_new (fun _ t h => inv_after h t) history

/-- The registry holds the top type and the accepted types. -/
theorem get?_registered_iff {history : List TypeDef} {k : String} {d : TypeDef} :
    (registered history).defs.get? k = some d ↔
      (k = TOP_TYPE ∧ d = top_typedef) ∨ (Accepted history d ∧ d.token = k) := by
  induction history using List.reverseRecOn generalizing k d with
  | nil =>
      have hnone : ¬ Accepted [] d := by
        rintro ⟨pre, post, h, -⟩
        simp at h
      rw [registered, Runs.run_nil, TypeRegistry.new, Dict.get?_set]
      split
      next h => simp [hnone, ← h, eq_comm]
      next h => simp [hnone, Ne.symm h]
  | append_singleton history t ih =>
      rw [registered_concat, accepted_concat]
      rcases (registered history).after_cases t with
        ⟨heq, herr⟩ | ⟨heq, hok, hget⟩ | ⟨heq, hok, hnew, -⟩
      · rw [heq, ih]
        simp [herr]
      · -- the type that is confirmed is there already
        rw [heq, ih]
        constructor
        · exact Or.imp_right fun h => ⟨.inl h.1, h.2⟩
        · rintro (hseed | ⟨hold | ⟨rfl, -⟩, rfl⟩)
          · exact .inl hseed
          · exact .inr ⟨hold, rfl⟩
          · exact ih.mp hget
      · rw [heq, TypeRegistry.add, Dict.get?_set]
        by_cases hk : t.token = k
        · subst hk
          -- a new token is not among the accepted ones yet
          rw [if_pos rfl, Option.some.injEq]
          constructor
          · rintro rfl
            exact .inr ⟨.inr ⟨rfl, hok⟩, rfl⟩
          · rintro (hseed | ⟨hold | ⟨rfl, -⟩, hk⟩)
            · rw [ih.mpr (.inl hseed)] at hnew
              cases hnew
            · rw [ih.mpr (.inr ⟨hold, hk⟩)] at hnew
              cases hnew
            · rfl
        · rw [if_neg hk, ih]
          refine or_congr_right ⟨fun h => ⟨.inl h.1, h.2⟩, ?_⟩
          rintro ⟨hold | ⟨rfl, -⟩, hk'⟩
          · exact ⟨hold, hk'⟩
          · exact absurd hk' hk

/-- What the registry promises over a history of registrations. -/
structure RegistryLaws (history : List TypeDef) : Prop where
  /-- It holds the top type and what was accepted, and nothing else. -/
  stored : ∀ k d, (registered history).defs.get? k = some d ↔
    (k = TOP_TYPE ∧ d = top_typedef) ∨ (Accepted history d ∧ d.token = k)
  /-- A registration is accepted when it repeats the stored declaration, or
  declares a new token from which no declared supertype leads back. -/
  accepts : ∀ pre t post, history = pre ++ t :: post →
    ((register t (registered pre)).1 = .ok t ↔
      (registered pre).defs.get? t.token = some t ∨
        ((registered pre).defs.get? t.token = none ∧
          ∀ st ∈ t.supertypes,
            ¬ Relation.ReflTransGen ((registered pre).add t).Parent st t.token))
  acyclic : Closure.Acyclic (registered history).Parent
  /-- A registration that raises changes nothing. -/
  atomic : ∀ pre t post e, history = pre ++ t :: post →
    (register t (registered pre)).1 = .error e → registered (pre ++ [t]) = registered pre
  /-- The subtype relation is the transitive closure of the declared
  supertypes, with every other token below the top type. -/
  subtype : ∀ sub sup, (registered history).is_subtype sub sup = true ↔
    (sup = TOP_TYPE ∧ sub ≠ TOP_TYPE) ∨
      Relation.TransGen (registered history).Parent sub sup
  irrefl : ∀ t, (registered history).is_subtype t t = false
  trans : ∀ a b c, (registered history).is_subtype a b = true →
    (registered history).is_subtype b c = true → (registered history).is_subtype a c = true
  top : ∀ t, (registered history).is_subtype t TOP_TYPE = decide (t ≠ TOP_TYPE) ∧
    (registered history).is_subtype TOP_TYPE t = false
  /-- A COMPATIBLE verdict is never retracted. -/
  monotone : Runs.Between TypeRegistry.after (fun r r' => ∀ source target,
    (is_compatible r source target).verdict = .COMPATIBLE →
      (is_compatible r' source target).verdict = .COMPATIBLE) .new history
  /-- The relation and the verdicts depend on the set of accepted types. -/
  order_free : ∀ history', (∀ t, Accepted history t ↔ Accepted history' t) →
    ∀ a b, (registered history).is_subtype a b = (registered history').is_subtype a b ∧
      is_compatible (registered history) a b = is_compatible (registered history') a b

theorem registry_laws (history : List TypeDef) : RegistryLaws history := by
  have hinv := registered_inv history
  refine ⟨fun _ _ => get?_registered_iff, fun _ _ _ _ => register_ok_iff, hinv.acyclic, ?_,
    fun _ _ => hinv.is_subtype_iff, ?_, ?_, ?_, ?_, ?_⟩
  · intro pre t post e _ hraise
    rw [registered_concat]
    exact register_atomic t _ e _ (Prod.ext hraise rfl)
  · intro t
    rw [TypeRegistry.is_subtype, if_pos rfl]
  · intro a b c hab hbc
    rw [hinv.is_subtype_iff] at hab hbc ⊢
    rcases hbc with ⟨rfl, hb⟩ | hbc
    · rcases hab with ⟨rfl, -⟩ | hab
      · exact absurd rfl hb
      · refine .inl ⟨rfl, ?_⟩
        rintro rfl
        exact hinv.not_parent_top hab
    · rcases hab with ⟨rfl, -⟩ | hab
      · exact absurd hbc hinv.not_parent_top
      · exact .inr (hab.trans hbc)
  · intro t
    constructor
    · rw [Bool.eq_iff_iff, hinv.is_subtype_iff, decide_eq_true_eq]
      constructor
      · rintro (⟨-, ht⟩ | hpath) rfl
        · exact ht rfl
        · exact hinv.not_parent_top hpath
      · exact fun ht => .inl ⟨rfl, ht⟩
    · rw [Bool.eq_false_iff, ne_eq, hinv.is_subtype_iff]
      rintro (⟨-, ht⟩ | hpath)
      · exact ht rfl
      · exact hinv.not_parent_top hpath
  · rw [Runs.between_iff (fun _ _ _ h => h) fun h h' source target hok =>
      h' source target (h source target hok)]
    intro pre t post _ source target hok
    have hpre := registered_inv pre
    exact hpre.compatible_grows (inv_after hpre t) ((registered pre).grows_after t) hok
  · intro history' hsame
    have hinv' := registered_inv history'
    -- the same accepted types make the same registry, in whatever order
    have hget : ∀ k, (registered history).defs.get? k = (registered history').defs.get? k := by
      intro k
      apply Option.ext
      intro d
      simp only [get?_registered_iff, hsame]
    have hparent : (registered history).Parent = (registered history').Parent := by
      funext a b
      rw [Parent, Parent, Worklist.Step, Worklist.Step, declared, declared, hget]
    have hsub : ∀ a b,
        (registered history).is_subtype a b = (registered history').is_subtype a b := by
      intro a b
      rw [Bool.eq_iff_iff, hinv.is_subtype_iff, hinv'.is_subtype_iff, hparent]
    have hknown : ∀ token,
        (registered history).is_registered token = (registered history').is_registered token := by
      intro token
      rw [TypeRegistry.is_registered, TypeRegistry.is_registered, Dict.contains, Dict.contains,
        hget]
    intro a b
    refine ⟨hsub a b, ?_⟩
    simp only [is_compatible, hsub, hknown]

/-- A forward reference is allowed; the registration that would close the
cycle is the later one. -/
example : (TypeRegistry.register { token := "b", supertypes := ["a"] }
    (registered [{ token := "a", supertypes := ["b"] }])).1 = .error (.cycle "b" "a") := by
  decide

end EmergentFlow
