import EmergentFlow.Lib.Dict
import EmergentFlow.Lib.Checks
import EmergentFlow.Lib.Worklist
import EmergentFlow.Lib.Closure
import EmergentFlow.Lib.Transaction

/-!
# Types — Registry

The type registry (`types/registry.py`): tokens with their declared direct
supertypes, which may be registered later or never. A registration that
would close a cycle is refused; `"any"` is above every other token.
-/

namespace EmergentFlow

/-- The top type. -/
def TOP_TYPE : String := "any"

/-- A type token with its declared direct supertypes. -/
structure TypeDef where
  token : String
  description : String := ""
  supertypes : List String := []
  deriving DecidableEq, Repr

inductive RegisterError where
  | conflict (existing typedef : TypeDef)
  | self_loop (token : String)
  | cycle (token supertype : String)
  deriving DecidableEq, Repr

/-- The registered types by token. -/
structure TypeRegistry where
  defs : Dict String TypeDef

def top_typedef : TypeDef where
  token := TOP_TYPE
  description := "The top/wildcard type; every type is implicitly a subtype of 'any'."

namespace TypeRegistry

open Transaction

/-- `TypeRegistry()`, seeded with the top type. -/
def new : TypeRegistry := ⟨Dict.empty.set TOP_TYPE top_typedef⟩

/-- `self._defs[token].supertypes`, and nothing for a token that is not
registered. -/
def declared (r : TypeRegistry) (token : String) : List String :=
  ((r.defs.get? token).map (·.supertypes)).getD []

def add (r : TypeRegistry) (typedef : TypeDef) : TypeRegistry :=
  ⟨r.defs.set typedef.token typedef⟩

/-- How many tokens the walks below can push. -/
def size (r : TypeRegistry) : Nat := (r.defs.keys.map fun token => (r.declared token).length).sum

/-- `_walk` from `start`: whether it comes back to `token`. -/
def walks_back (r : TypeRegistry) (token start : String) : Bool :=
  Worklist.search r.declared token (1 + r.size) [start] []

/-- `register`. -/
def register (typedef : TypeDef) : Transaction TypeRegistry RegisterError TypeDef := do
  let self ← read
  match self.defs.get? typedef.token with
  | some existing =>
      -- registering a type again is allowed when nothing changes
      if existing = typedef then return typedef else raise (.conflict existing typedef)
  | none => do
      check (typedef.token ∉ typedef.supertypes) (.self_loop typedef.token)
      let temp_defs := self.add typedef
      lift (typedef.supertypes.forM fun st =>
        Checks.guard (!temp_defs.walks_back typedef.token st) (.cycle typedef.token st))
      write fun self => self.add typedef
      return typedef

def is_registered (r : TypeRegistry) (token : String) : Bool := r.defs.contains token

/-- `supertypes_of(token, transitive=True)`. -/
def supertypes_of (r : TypeRegistry) (token : String) : List String :=
  let result := if token = TOP_TYPE then [] else [TOP_TYPE]
  result ++ Worklist.reach r.declared ((r.declared token).length + r.size) token

/-- `is_subtype`. -/
def is_subtype (r : TypeRegistry) (sub sup : String) : Bool :=
  if sub = sup then false
  else if sup = TOP_TYPE then sub ≠ TOP_TYPE
  else (r.supertypes_of sub).contains sup

/-! ## The declared relation -/

/-- `b` is a declared direct supertype of `a`. -/
def Parent (r : TypeRegistry) : String → String → Prop := Worklist.Step r.declared

variable {r : TypeRegistry}

theorem mem_keys_of_declared {token : String} (h : r.declared token ≠ []) :
    token ∈ r.defs.keys := by
  rw [Dict.mem_keys_iff_isSome]
  cases hget : r.defs.get? token with
  | none => simp [declared, hget] at h
  | some d => rfl

theorem walks_back_iff {token start : String} :
    r.walks_back token start = true ↔ Relation.ReflTransGen r.Parent start token := by
  rw [walks_back, Worklist.search_eq_mem_run List.not_mem_nil]
  exact Worklist.mem_run_iff r.defs.nodup_keys (fun _ => mem_keys_of_declared) (Nat.le_refl _)

theorem mem_supertypes_of {sub sup : String} :
    sup ∈ r.supertypes_of sub ↔
      (sup = TOP_TYPE ∧ sub ≠ TOP_TYPE) ∨ Relation.TransGen r.Parent sub sup := by
  have hreach : sup ∈ Worklist.reach r.declared ((r.declared sub).length + r.size) sub ↔
      Relation.TransGen r.Parent sub sup :=
    Worklist.mem_reach_iff r.defs.nodup_keys (fun _ => mem_keys_of_declared) (Nat.le_refl _)
  rw [supertypes_of, List.mem_append, hreach]
  apply or_congr_left
  split
  next h => simp [h]
  next h => simp [h]

theorem declared_add {typedef : TypeDef} (token : String) :
    (r.add typedef).declared token =
      if typedef.token = token then typedef.supertypes else r.declared token := by
  rw [declared, add, Dict.get?_set]
  split <;> rfl

/-- A new token extends the relation by its declared supertypes. -/
theorem parent_add {typedef : TypeDef} (hnew : r.defs.get? typedef.token = none) :
    (r.add typedef).Parent = Closure.Extend r.Parent typedef.token (· ∈ typedef.supertypes) := by
  funext a b
  apply propext
  rw [Parent, Worklist.Step, declared_add, Closure.Extend, Parent, Worklist.Step]
  by_cases ha : typedef.token = a
  · subst ha
    simp [declared, hnew]
  · simp [ha, Ne.symm ha]

/-! ## Registering -/

/-- What a registration that returns has done: nothing, as the type was
registered before, or added a new token that closes no cycle. -/
theorem register_spec {typedef t : TypeDef} {r' : TypeRegistry}
    (h : register typedef r = (.ok t, r')) :
    t = typedef ∧ ((r.defs.get? typedef.token = some typedef ∧ r' = r) ∨
      (r.defs.get? typedef.token = none ∧ r' = r.add typedef ∧
        ∀ st ∈ typedef.supertypes, ¬ Relation.ReflTransGen r'.Parent st typedef.token)) := by
  rw [register, bind_of_ok (read_apply r)] at h
  cases hget : r.defs.get? typedef.token with
  | some existing =>
      simp only [hget] at h
      split at h
      next heq =>
        cases h
        exact ⟨rfl, .inl ⟨congrArg some heq, rfl⟩⟩
      next => cases h
  | none =>
      simp only [hget, bind_eq_ok, check_eq_ok, lift_eq_ok, write_eq_ok] at h
      obtain ⟨_, _, ⟨-, rfl⟩, _, _, ⟨hwalks, rfl⟩, _, _, rfl, h⟩ := h
      cases h
      refine ⟨rfl, .inr ⟨rfl, rfl, ?_⟩⟩
      intro st hst hback
      have hguard := (Checks.forM_eq_ok.mp hwalks) st hst
      rw [Checks.guard_eq_ok, walks_back_iff.mpr hback] at hguard
      cases hguard

/-- When a registration returns. -/
theorem register_ok_iff {typedef : TypeDef} :
    (register typedef r).1 = .ok typedef ↔
      r.defs.get? typedef.token = some typedef ∨
        (r.defs.get? typedef.token = none ∧ ∀ st ∈ typedef.supertypes,
          ¬ Relation.ReflTransGen (r.add typedef).Parent st typedef.token) := by
  constructor
  · intro h
    obtain ⟨-, ⟨hget, -⟩ | ⟨hget, hr', hback⟩⟩ :=
      register_spec (Prod.ext h rfl : register typedef r = (.ok typedef, (register typedef r).2))
    · exact .inl hget
    · rw [hr'] at hback
      exact .inr ⟨hget, hback⟩
  · intro h
    have hreturns : ∃ r', register typedef r = (.ok typedef, r') := by
      rw [register, bind_of_ok (read_apply r)]
      rcases h with hget | ⟨hget, hback⟩
      · simp only [hget, if_pos]
        exact ⟨_, rfl⟩
      · -- the empty walk back rules out a declaration of the token itself
        have hself : typedef.token ∉ typedef.supertypes := fun hmem => hback _ hmem .refl
        have hwalks : typedef.supertypes.forM (fun st =>
            Checks.guard (!(r.add typedef).walks_back typedef.token st)
              (RegisterError.cycle typedef.token st)) = .ok () := by
          refine Checks.forM_eq_ok.mpr fun st hst => ?_
          rw [Checks.guard_eq_ok, Bool.not_eq_true', Bool.eq_false_iff, ne_eq, walks_back_iff]
          exact hback st hst
        simp only [hget, bind_eq_ok, check_eq_ok, lift_eq_ok, write_eq_ok]
        exact ⟨_, (), _, ⟨decide_eq_true hself, rfl⟩, (), _, ⟨hwalks, rfl⟩, (), _, rfl, rfl⟩
    obtain ⟨r', hrun⟩ := hreturns
    exact congrArg Prod.fst hrun

/-- A registration that raises leaves the registry as it was. -/
theorem register_atomic (typedef : TypeDef) : Atomic (register typedef) := by
  refine Reads.read.bind_atomic fun self => ?_
  split
  next =>
    split
    · exact (Reads.pure _).atomic
    · exact (Reads.raise _).atomic
  next =>
    exact (Reads.check _ _).bind_atomic fun _ => (Reads.lift _).bind_atomic fun _ =>
      ((Total.write _).bind fun _ => .pure _).atomic

end TypeRegistry

end EmergentFlow
