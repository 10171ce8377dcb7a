import EmergentFlow.Lib.Dict

/-!
# Lib — Scopes

A language of assignments in nested functions, with the scoping rule of Python: a
name that is assigned anywhere in a function, or is one of its parameters, is
local to it, also before it is bound; any other name is looked up in the
functions around it. A function is defined and called at once, and assigns only
its own names.

What an operation computes, and the names that it needs from outside all
functions, are given by a `Machine`.
-/

namespace EmergentFlow.Scopes

variable {Op κ V : Type}

/-! ## Programs -/

inductive Expr (V : Type) where
  | const (value : V)
  | var (name : String)
  | list (names : List String)

/-- `call` assigns the results of an operation on named arguments; `block` defines a
function, calls it, and assigns what it returns. -/
inductive Command (Op κ V : Type) where
  | skip
  | seq (first second : Command Op κ V)
  | call (op : Op) (args : List (κ × Expr V)) (targets : List String)
  | block (name : String) (formals : List String) (body : Command Op κ V)
      (returns : List String) (actuals : List (Expr V)) (targets : List String)

/-- The names that a command assigns, those of the functions it defines among them. -/
def Command.assigned : Command Op κ V → List String
  | .skip => []
  | .seq first second => first.assigned ++ second.assigned
  | .call _ _ targets => targets
  | .block name _ _ _ _ targets => name :: targets

def Command.all (l : List (Command Op κ V)) : Command Op κ V := l.foldr .seq .skip

/-! ## Frames -/

inductive Binding (V : Type) where
  | value (v : V)
  | function

/-- The local names of a function, and those of them that are bound. -/
structure Frame (V : Type) where
  locals : List String
  bound : Dict String (Binding V) := Dict.empty

def Frame.value? (frame : Frame V) (name : String) : Option V :=
  match frame.bound.get? name with
  | some (.value v) => some v
  | _ => none

/-- The value of a name, the innermost function first. -/
def lookup : List (Frame V) → String → Option V
  | [], _ => none
  | frame :: outer, name => if name ∈ frame.locals then frame.value? name else lookup outer name

def Frame.bind (frame : Frame V) (name : String) (b : Binding V) : Frame V :=
  { frame with bound := frame.bound.set name b }

/-- Assign values to targets, one each. -/
def Frame.assign (frame : Frame V) : List String → List V → Option (Frame V)
  | [], [] => some frame
  | name :: names, v :: vs => (frame.bind name (.value v)).assign names vs
  | _, _ => none

/-- The frame of a call. -/
def Frame.enter (formals assigned : List String) (actuals : List V) : Option (Frame V) :=
  Frame.assign { locals := formals ++ assigned } formals actuals

/-! ## Running -/

structure Machine (Op κ V : Type) where
  list : List V → V
  globals : Op → List String
  apply : Op → List (κ × V) → Option (List V)

def Machine.eval (m : Machine Op κ V) (frames : List (Frame V)) : Expr V → Option V
  | .const value => some value
  | .var name => lookup frames name
  | .list names => (names.mapM (lookup frames)).map m.list

/-- The values of named arguments. -/
def Machine.eval_args (m : Machine Op κ V) (frames : List (Frame V)) (args : List (κ × Expr V)) :
    Option (List (κ × V)) := args.mapM fun arg => (m.eval frames arg.2).map (arg.1, ·)

/-- Run a command in the frame of its function; `none` when it raises. -/
def Machine.run (m : Machine Op κ V) (outer : List (Frame V)) :
    Command Op κ V → Frame V → Option (Frame V)
  | .skip, frame => some frame
  | .seq first second, frame => (m.run outer first frame).bind (m.run outer second)
  | .call op args targets, frame => do
      -- a name of the module is out of reach where a function has made it local
      guard (∀ name ∈ m.globals op, ∀ f ∈ frame :: outer, name ∉ f.locals)
      let values ← m.eval_args (frame :: outer) args
      let results ← m.apply op values
      frame.assign targets results
  | .block name formals body returns actuals targets, frame => do
      let here := frame.bind name .function
      let values ← actuals.mapM (m.eval (here :: outer))
      let inner ← Frame.enter formals body.assigned values
      let inner ← m.run (here :: outer) body inner
      let results ← returns.mapM (lookup (inner :: here :: outer))
      here.assign targets results

/-! ## What a command leaves as it was -/

/-- The same function, in which only `names` may have been bound anew. -/
structure Frame.Kept (names : List String) (frame frame' : Frame V) : Prop where
  locals : frame'.locals = frame.locals
  bound : ∀ name ∉ names, frame'.bound.get? name = frame.bound.get? name

section Kept

variable {names : List String} {frame frame' frame'' : Frame V} {name : String}

theorem Frame.Kept.refl (names : List String) (frame : Frame V) : Frame.Kept names frame frame :=
  ⟨rfl, fun _ _ => rfl⟩

theorem Frame.Kept.trans (h : Frame.Kept names frame frame')
    (h' : Frame.Kept names frame' frame'') : Frame.Kept names frame frame'' :=
  ⟨h'.locals.trans h.locals, fun name hname => (h'.bound name hname).trans (h.bound name hname)⟩

theorem Frame.Kept.mono {names' : List String} (h : Frame.Kept names frame frame')
    (hsub : ∀ name ∈ names, name ∈ names') : Frame.Kept names' frame frame' :=
  ⟨h.locals, fun name hname => h.bound name fun hmem => hname (hsub name hmem)⟩

theorem Frame.Kept.bind (b : Binding V) (h : name ∈ names) :
    Frame.Kept names frame (frame.bind name b) :=
  ⟨rfl, fun _ hother => Dict.get?_set_ne _ _ fun heq => hother (heq ▸ h)⟩

theorem Frame.Kept.value? (h : Frame.Kept names frame frame') (hname : name ∉ names) :
    frame'.value? name = frame.value? name := by
  rw [Frame.value?, Frame.value?, h.bound name hname]

/-- A name that was not bound anew has the value it had. -/
theorem Frame.Kept.lookup (h : Frame.Kept names frame frame') (outer : List (Frame V))
    (hname : name ∉ names) :
    Scopes.lookup (frame' :: outer) name = Scopes.lookup (frame :: outer) name := by
  rw [Scopes.lookup, Scopes.lookup, h.locals, h.value? hname]

end Kept

theorem Frame.value?_bind_value (frame : Frame V) (name name' : String) (v : V) :
    (frame.bind name (.value v)).value? name' =
      if name = name' then some v else frame.value? name' := by
  rw [Frame.value?, Frame.bind, Dict.get?_set]
  by_cases hname : name = name'
  · rw [if_pos hname, if_pos hname]
  · rw [if_neg hname, if_neg hname, Frame.value?]

theorem lookup_local {frame : Frame V} {outer : List (Frame V)} {name : String}
    (h : name ∈ frame.locals) : lookup (frame :: outer) name = frame.value? name := by
  rw [lookup, if_pos h]

theorem lookup_outer {frame : Frame V} {outer : List (Frame V)} {name : String}
    (h : name ∉ frame.locals) : lookup (frame :: outer) name = lookup outer name := by
  rw [lookup, if_neg h]

/-! ## Assignments -/

section Assign

variable {frame frame' : Frame V} {targets : List String} {values : List V}

theorem Frame.assign_isSome_iff :
    (frame.assign targets values).isSome ↔ targets.length = values.length := by
  induction targets generalizing frame values with
  | nil => cases values <;> simp [Frame.assign]
  | cons name targets ih =>
      cases values with
      | nil => simp [Frame.assign]
      | cons v values => simp [Frame.assign, ih]

theorem Frame.assign_kept (h : frame.assign targets values = some frame') :
    Frame.Kept targets frame frame' := by
  induction targets generalizing frame values with
  | nil =>
      cases values with
      | nil =>
          cases h
          exact Frame.Kept.refl _ _
      | cons v values => cases h
  | cons name targets ih =>
      cases values with
      | nil => cases h
      | cons v values =>
          have hbind : Frame.Kept (name :: targets) frame (frame.bind name (.value v)) :=
            Frame.Kept.bind _ List.mem_cons_self
          exact hbind.trans ((ih h).mono fun _ => List.mem_cons_of_mem _)

/-- Distinct targets have the values that they were assigned. -/
theorem Frame.assign_value? (h : frame.assign targets values = some frame')
    (hnodup : targets.Nodup) {i : Nat} {name : String} (hi : targets[i]? = some name) :
    frame'.value? name = values[i]? := by
  induction targets generalizing frame values i with
  | nil => simp at hi
  | cons first targets ih =>
      rw [List.nodup_cons] at hnodup
      cases values with
      | nil => cases h
      | cons v values =>
          have hrest : (frame.bind first (.value v)).assign targets values = some frame' := h
          cases i with
          | zero =>
              obtain rfl : first = name := by simpa using hi
              rw [(Frame.assign_kept hrest).value? hnodup.1, Frame.value?_bind_value, if_pos rfl]
              rfl
          | succ i => exact ih hrest hnodup.2 (by simpa using hi)

/-- The frame of a call holds the actual values and nothing else. -/
theorem Frame.enter_spec {formals assigned : List String} {inner : Frame V}
    (h : Frame.enter formals assigned values = some inner) :
    inner.locals = formals ++ assigned ∧ ∀ name ∉ formals, inner.value? name = none := by
  have hkept := Frame.assign_kept h
  exact ⟨hkept.locals, fun name hname => hkept.value? hname⟩

end Assign

/-! ## Arguments -/

section Args

variable {m : Machine Op κ V} {frames : List (Frame V)} {args : List (κ × Expr V)}

theorem Machine.eval_args_isSome_iff :
    (m.eval_args frames args).isSome ↔ ∀ arg ∈ args, (m.eval frames arg.2).isSome := by
  induction args with
  | nil => simp [Machine.eval_args]
  | cons arg args ih =>
      rw [List.forall_mem_cons, ← ih, Machine.eval_args, Machine.eval_args, List.mapM_cons]
      cases m.eval frames arg.2 with
      | none => simp
      | some v => cases args.mapM fun arg => (m.eval frames arg.2).map (arg.1, ·) <;> simp

theorem Machine.lookup_eval_args [BEq κ] {values : List (κ × V)}
    (h : m.eval_args frames args = some values) (k : κ) :
    values.lookup k = (args.lookup k).bind (m.eval frames) := by
  induction args generalizing values with
  | nil =>
      cases h
      rfl
  | cons arg args ih =>
      rw [Machine.eval_args, List.mapM_cons] at h
      obtain ⟨value, hvalue, h⟩ := Option.bind_eq_some_iff.mp h
      obtain ⟨rest, hrest, h⟩ := Option.bind_eq_some_iff.mp h
      obtain ⟨v, hv, rfl⟩ := Option.map_eq_some_iff.mp hvalue
      cases h
      rw [List.lookup_cons, List.lookup_cons, ih hrest]
      cases k == arg.1 with
      | true => exact hv.symm
      | false => rfl

end Args

/-! ## Runs -/

section Run

variable {m : Machine Op κ V} {outer : List (Frame V)} {frame frame' : Frame V}

theorem Machine.run_all (l : List (Command Op κ V)) :
    m.run outer (.all l) frame = l.foldlM (fun frame c => m.run outer c frame) frame := by
  induction l generalizing frame with
  | nil => rfl
  | cons c l ih =>
      rw [List.foldlM_cons]
      exact congrArg (Option.bind _) (funext fun frame => ih)

theorem Command.assigned_all (l : List (Command Op κ V)) :
    (Command.all l).assigned = l.flatMap Command.assigned := by
  induction l with
  | nil => rfl
  | cons c l ih =>
      rw [List.flatMap_cons, ← ih]
      rfl

end Run

end EmergentFlow.Scopes
