import EmergentFlow.Collab.AppendOnly

/-!
# Collab — BudgetGate

The budget check of `execute_session` (`collab/budget_gate.py`,
`server/service.py`). A run over budget needs the approval of a human, who
closes a `budget_check` gate; the approval is spent by entering the gate's
id in a set that all sessions share.

Runs, requests on the gates and the runs of other sessions interleave at
any point, also within the scan for an approval, which holds the lock of
the set but not that of the store. Gates are objects here: a scan keeps the
object it has fetched while another is stored under its id.
-/

namespace EmergentFlow

/-! ## The state -/

/-- The estimated cost of a run and the ceiling it is compared with. -/
structure Price (Cost : Type) where
  estimated_cost : Cost
  budget_ceiling : Cost

/-- The estimated cost is not within the ceiling. -/
def Price.Exceeds {Cost : Type} [LE Cost] (p : Price Cost) : Prop :=
  ¬ p.estimated_cost ≤ p.budget_ceiling

/-- Where a call of `execute_session` has got to. -/
inductive RunPhase (Cost : Type) where
  | started
  | admitted
  /-- Over budget, at `with _consumed_lock`. -/
  | waiting (price : Price Cost)
  | locked (price : Price Cost)
  /-- At the head of the loop over the gates, which were `size` many. -/
  | scanning (price : Price Cost) (index size : Nat)
  | testing (price : Price Cost) (index size gate : Nat)
  | spending (price : Price Cost) (gate : Nat)
  /-- Without an approval, about to open a gate. -/
  | denied (price : Price Cost)
  /-- At `execute_graph`, with the gate object that approved it. -/
  | running (price : Price Cost) (approval : Option Nat)
  | refused (price : Price Cost) (gate_id : String)
  | failed

/-- The gates of one session as references to gate objects, the spent
approvals with their lock, and the calls of `execute_session` on it. -/
structure BudgetState (Cost : Type) where
  objects : List Gate := []
  gates : Dict String Nat := Dict.empty
  consumed_approvals : List String := []
  consumed_lock : Option Nat := none
  runs : List (RunPhase Cost) := []

/-- One step: a request on the session, a run of another session that
spends an approval, a new call of `execute_session`, or the next step of
call `run`, which may read its price (`none` when the estimate raises) or
take a fresh gate id. -/
inductive BudgetStep (Sub Diag Cost : Type) where
  | request (r : RecordRequest Sub Diag)
  | elsewhere (gate_id : String)
  | execute
  | advance (run : Nat) (price : Option (Price Cost)) (gate_id : String)

variable {Sub Diag Cost : Type}

namespace BudgetState

/-- The gate the session has under an id. -/
def record (st : BudgetState Cost) (gate_id : String) : Option Gate :=
  (st.gates.get? gate_id).bind fun r => st.objects[r]?

def move (st : BudgetState Cost) (run : Nat) (phase : RunPhase Cost) : BudgetState Cost :=
  { st with runs := st.runs.set run phase }

/-! ## Requests on the gates -/

def open_gate (st : BudgetState Cost) (gate : Gate) : BudgetState Cost :=
  { st with
    objects := st.objects ++ [{ gate with status := .OPEN }]
    gates := st.gates.set gate.id st.objects.length }

/-- An assignment to the gate object under this id. -/
def modify_gate (st : BudgetState Cost) (gate_id : String) (f : Gate → Gate) : BudgetState Cost :=
  match st.gates.get? gate_id with
  | some r => { st with objects := st.objects.modify r f }
  | none => st

def resolve_gate (st : BudgetState Cost) (gate_id : String) (status : GateStatus) :
    BudgetState Cost :=
  match st.record gate_id with
  | some gate =>
      if gate.status = .OPEN then st.modify_gate gate_id fun g => { g with status := status }
      else st
  | none => st

def request (st : BudgetState Cost) : RecordRequest Sub Diag → BudgetState Cost
  | .open_gate _ gate => st.open_gate gate
  | .close_gate _ gate_id => st.resolve_gate gate_id .CLOSED
  | .skip_gate _ gate_id => st.resolve_gate gate_id .SKIPPED
  | .add_decision _ gate_id decision =>
      st.modify_gate gate_id fun g => { g with decisions := g.decisions ++ [decision] }
  | .add_review .. | .add_review_comment .. => st

/-! ## The steps of `execute_session` -/

def has_open_gate (st : BudgetState Cost) : Bool :=
  st.gates.values.any fun r => st.objects[r]?.any (·.status = .OPEN)

/-- A gate that authorises a run: for the budget check, closed, and not
spent before. -/
def approves (st : BudgetState Cost) (gate : Gate) : Bool :=
  gate.phase = "budget_check" && gate.status = .CLOSED &&
    decide (gate.id ∉ st.consumed_approvals)

/-- The gate opened for a run over budget; `fmt` is the format `.4f`. -/
def budget_gate (fmt : Cost → String) (price : Price Cost) (gate_id : String) : Gate where
  id := gate_id
  phase := "budget_check"
  kind := .EXECUTE
  description := "Run estimated cost ($" ++ fmt price.estimated_cost ++
    ") exceeds budget ceiling ($" ++ fmt price.budget_ceiling ++
    "). Close this gate to approve execution."

/-- The next step of a call of `execute_session`. -/
def advance [LE Cost] [DecidableLE Cost] (fmt : Cost → String) (st : BudgetState Cost)
    (run : Nat) (price : Option (Price Cost)) (gate_id : String) : BudgetState Cost :=
  match st.runs[run]? with
  | some .started => st.move run (if st.has_open_gate then .failed else .admitted)
  | some .admitted =>
      match price with
      | none => st.move run .failed
      | some p =>
          st.move run (if p.estimated_cost ≤ p.budget_ceiling then .running p none else .waiting p)
  | some (.waiting p) =>
      -- a run that finds the lock taken waits
      if st.consumed_lock = none then { st.move run (.locked p) with consumed_lock := some run }
      else st
  | some (.locked p) => st.move run (.scanning p 0 st.gates.size)
  | some (.scanning p index size) =>
      -- a dictionary that has grown since makes the iterator raise
      if st.gates.size ≠ size then { st.move run .failed with consumed_lock := none }
      else match st.gates.values[index]? with
        | some gate => st.move run (.testing p index size gate)
        | none => { st.move run (.denied p) with consumed_lock := none }
  | some (.testing p index size gate) =>
      st.move run (if st.objects[gate]?.any st.approves then .spending p gate
        else .scanning p (index + 1) size)
  | some (.spending p gate) =>
      { st.move run (.running p (some gate)) with
        consumed_lock := none
        -- the lock is still held from the scan, so no other run spends this approval
        consumed_approvals := st.consumed_approvals ++ st.objects[gate]?.toList.map (·.id) }
  | some (.denied p) => (st.open_gate (budget_gate fmt p gate_id)).move run (.refused p gate_id)
  | some (.running ..) | some (.refused ..) | some .failed | none => st

end BudgetState

/-- The state after a step. -/
def BudgetStep.after [LE Cost] [DecidableLE Cost] (fmt : Cost → String) (st : BudgetState Cost) :
    BudgetStep Sub Diag Cost → BudgetState Cost
  | .request r => st.request r
  | .elsewhere gate_id =>
      if st.consumed_lock = none then
        { st with consumed_approvals := st.consumed_approvals ++ [gate_id] }
      else st
  | .execute => { st with runs := st.runs ++ [.started] }
  | .advance run price gate_id => st.advance fmt run price gate_id

/-! ## Gate objects -/

namespace BudgetState

variable {st : BudgetState Cost}

/-- A gate is stored under its own id. -/
def Keyed (st : BudgetState Cost) : Prop :=
  ∀ id r, st.gates.get? id = some r → ∃ g, st.objects[r]? = some g ∧ g.id = id

/-- Gate objects stay; one changes its status only when it is open, and
then while the session has it under its id. -/
def ObjectsKept (st st' : BudgetState Cost) : Prop :=
  ∀ r g, st.objects[r]? = some g → ∃ g', st'.objects[r]? = some g' ∧ g'.id = g.id ∧
    g'.phase = g.phase ∧
    (g'.status = g.status ∨ (g.status = .OPEN ∧ st'.gates.get? g.id = some r))

theorem ObjectsKept.of_eq {st' : BudgetState Cost} (h : st'.objects = st.objects) :
    ObjectsKept st st' := by
  intro r g hg
  exact ⟨g, h ▸ hg, rfl, rfl, .inl rfl⟩

theorem Keyed.of_eq {st' : BudgetState Cost} (hst : st.Keyed) (hgates : st'.gates = st.gates)
    (hobjects : st'.objects = st.objects) : st'.Keyed := by
  intro id r h
  rw [hobjects]
  exact hst id r (hgates ▸ h)

theorem Keyed.open_gate (hst : st.Keyed) (gate : Gate) : (st.open_gate gate).Keyed := by
  intro id r h
  rw [BudgetState.open_gate, Dict.get?_set] at h
  by_cases hid : gate.id = id
  · rw [if_pos hid, Option.some.injEq] at h
    subst h
    exact ⟨_, List.getElem?_concat_length, hid⟩
  · rw [if_neg hid] at h
    obtain ⟨g, hg, hgid⟩ := hst _ _ h
    exact ⟨g, by rw [BudgetState.open_gate, List.getElem?_append_left
      (List.getElem?_eq_some_iff.mp hg).1, hg], hgid⟩

theorem objectsKept_open_gate (gate : Gate) : ObjectsKept st (st.open_gate gate) := by
  intro r g hg
  refine ⟨g, ?_, rfl, rfl, .inl rfl⟩
  rw [open_gate, List.getElem?_append_left (List.getElem?_eq_some_iff.mp hg).1, hg]

theorem Keyed.modify_gate (hst : st.Keyed) (id : String) {f : Gate → Gate}
    (hf : ∀ g, (f g).id = g.id) : (st.modify_gate id f).Keyed := by
  rw [BudgetState.modify_gate]
  split
  next r hr =>
    intro id' r' h
    obtain ⟨g, hg, hgid⟩ := hst _ _ h
    by_cases hrr : r = r'
    · subst hrr
      exact ⟨f g, by rw [List.getElem?_modify_eq, hg]; rfl, (hf g).trans hgid⟩
    · exact ⟨g, by rw [List.getElem?_modify_ne _ _ hrr, hg], hgid⟩
  next => exact hst

theorem objectsKept_modify_gate (hst : st.Keyed) {id : String} {f : Gate → Gate}
    (hf : ∀ g, (f g).id = g.id ∧ (f g).phase = g.phase)
    (hstatus : ∀ g, st.record id = some g → (f g).status = g.status ∨ g.status = .OPEN) :
    ObjectsKept st (st.modify_gate id f) := by
  rw [modify_gate]
  split
  next r hr =>
    intro r' g hg
    by_cases hrr : r = r'
    · subst hrr
      obtain ⟨g', hg', rfl⟩ := hst _ _ hr
      rw [hg, Option.some.injEq] at hg'
      subst hg'
      refine ⟨f g, by rw [List.getElem?_modify_eq, hg]; rfl, (hf g).1, (hf g).2, ?_⟩
      rcases hstatus g (by rw [record, hr, Option.bind_some, hg]) with h | h
      · exact .inl h
      · exact .inr ⟨h, hr⟩
    · exact ⟨g, by rw [List.getElem?_modify_ne _ _ hrr, hg], rfl, rfl, .inl rfl⟩
  next => exact ObjectsKept.of_eq rfl

theorem resolve_gate_next (hst : st.Keyed) (id : String) (status : GateStatus) :
    (st.resolve_gate id status).Keyed ∧ ObjectsKept st (st.resolve_gate id status) := by
  rw [resolve_gate]
  split
  next gate hgate =>
    split
    next hopen =>
      refine ⟨hst.modify_gate id fun _ => rfl, objectsKept_modify_gate hst (fun _ => ⟨rfl, rfl⟩) ?_⟩
      intro g hg
      rw [hgate, Option.some.injEq] at hg
      exact .inr (hg ▸ hopen)
    next => exact ⟨hst, ObjectsKept.of_eq rfl⟩
  next => exact ⟨hst, ObjectsKept.of_eq rfl⟩

theorem request_next (hst : st.Keyed) (r : RecordRequest Sub Diag) :
    (st.request r).Keyed ∧ ObjectsKept st (st.request r) := by
  cases r with
  | open_gate _ gate => exact ⟨hst.open_gate gate, objectsKept_open_gate gate⟩
  | close_gate _ id | skip_gate _ id => exact resolve_gate_next hst id _
  | add_decision _ id _ =>
      exact ⟨hst.modify_gate id fun _ => rfl,
        objectsKept_modify_gate hst (fun _ => ⟨rfl, rfl⟩) fun _ _ => .inl rfl⟩
  | add_review | add_review_comment => exact ⟨hst, ObjectsKept.of_eq rfl⟩

/-- A request leaves the spent approvals, their lock and the runs. -/
theorem request_frame (st : BudgetState Cost) (r : RecordRequest Sub Diag) :
    (st.request r).consumed_approvals = st.consumed_approvals ∧
      (st.request r).consumed_lock = st.consumed_lock ∧ (st.request r).runs = st.runs := by
  have hmodify : ∀ id f, (st.modify_gate id f).consumed_approvals = st.consumed_approvals ∧
      (st.modify_gate id f).consumed_lock = st.consumed_lock ∧
      (st.modify_gate id f).runs = st.runs := by
    intro id f
    rw [modify_gate]
    split <;> exact ⟨rfl, rfl, rfl⟩
  have hresolve : ∀ id status,
      (st.resolve_gate id status).consumed_approvals = st.consumed_approvals ∧
      (st.resolve_gate id status).consumed_lock = st.consumed_lock ∧
      (st.resolve_gate id status).runs = st.runs := by
    intro id status
    rw [resolve_gate]
    split
    next =>
      split
      next => exact hmodify _ _
      next => exact ⟨rfl, rfl, rfl⟩
    next => exact ⟨rfl, rfl, rfl⟩
  cases r with
  | open_gate => exact ⟨rfl, rfl, rfl⟩
  | close_gate _ id | skip_gate _ id => exact hresolve id _
  | add_decision _ id _ => exact hmodify id _
  | add_review | add_review_comment => exact ⟨rfl, rfl, rfl⟩

/-! ## The records of the store -/

theorem record_open_gate (hst : st.Keyed) (gate : Gate) (id : String) :
    (st.open_gate gate).record id =
      if gate.id = id then some { gate with status := .OPEN } else st.record id := by
  rw [record, open_gate, Dict.get?_set]
  by_cases hid : gate.id = id
  · rw [if_pos hid, if_pos hid, Option.bind_some, List.getElem?_concat_length]
  · rw [if_neg hid, if_neg hid, record]
    cases hr : st.gates.get? id with
    | none => rfl
    | some r =>
        obtain ⟨g, hg, -⟩ := hst _ _ hr
        rw [Option.bind_some, Option.bind_some,
          List.getElem?_append_left (List.getElem?_eq_some_iff.mp hg).1]

theorem record_modify_gate (hst : st.Keyed) (id id' : String) (f : Gate → Gate) :
    (st.modify_gate id f).record id' =
      if id = id' then (st.record id').map f else st.record id' := by
  rw [modify_gate]
  by_cases hid : id = id'
  · subst hid
    rw [if_pos rfl]
    cases hr : st.gates.get? id with
    | none => simp [record, hr]
    | some r => simp [record, hr, List.getElem?_modify_eq]
  · rw [if_neg hid]
    cases hr : st.gates.get? id with
    | none => rfl
    | some r =>
        simp only [record]
        cases hr' : st.gates.get? id' with
        | none => rfl
        | some r' =>
            obtain ⟨g, hg, hgid⟩ := hst _ _ hr
            obtain ⟨g', hg', hgid'⟩ := hst _ _ hr'
            have hne : r ≠ r' := by
              rintro rfl
              rw [hg, Option.some.injEq] at hg'
              exact hid (hgid.symm.trans ((congrArg Gate.id hg').trans hgid'))
            rw [Option.bind_some, Option.bind_some, List.getElem?_modify_ne _ _ hne]

/-- On the records, a request whose checks pass has the effect it has in
the session store. -/
theorem record_request (hst : st.Keyed) {r : RecordRequest Sub Diag}
    {c : CollaborationState Sub Diag} (hc : ∀ id, c.gates.get? id = st.record id)
    (hchecked : r.Checked c) (id : String) :
    (r.effect c).gates.get? id = (st.request r).record id := by
  have hmodify : ∀ gid f, (c.gates.modify gid f).get? id = (st.modify_gate gid f).record id := by
    intro gid f
    rw [Dict.get?_modify, record_modify_gate hst, hc]
  have hresolve : ∀ gid status, (∃ g, c.gates.get? gid = some g ∧ g.status = .OPEN) →
      st.resolve_gate gid status = st.modify_gate gid fun g => { g with status := status } := by
    rintro gid status ⟨g, hg, hopen⟩
    rw [hc] at hg
    simp only [resolve_gate, hg, if_pos hopen]
  cases r with
  | open_gate _ gate =>
      rw [request, record_open_gate hst]
      exact (Dict.get?_set ..).trans (by rw [hc])
  | close_gate _ gid | skip_gate _ gid =>
      rw [request, hresolve gid _ hchecked]
      exact hmodify gid _
  | add_decision _ gid decision => exact hmodify gid _
  | add_review | add_review_comment => exact hc id

/-! ## What a run can do -/

/-- A gate object closed for the budget check. -/
def Approval (st : BudgetState Cost) (r : Nat) (g : Gate) : Prop :=
  st.objects[r]? = some g ∧ g.phase = "budget_check" ∧ g.status = .CLOSED

theorem Approval.kept {st' : BudgetState Cost} {r : Nat} {g : Gate} (h : st.Approval r g)
    (hkept : ObjectsKept st st') : ∃ g', st'.Approval r g' ∧ g'.id = g.id := by
  obtain ⟨hg, hphase, hstatus⟩ := h
  obtain ⟨g', hg', hid, hphase', hsame | ⟨hopen, -⟩⟩ := hkept r g hg
  · exact ⟨g', ⟨hg', hphase'.trans hphase, hsame.trans hstatus⟩, hid⟩
  · rw [hstatus] at hopen
    cases hopen

theorem approves_iff {g : Gate} :
    st.approves g = true ↔
      g.phase = "budget_check" ∧ g.status = .CLOSED ∧ g.id ∉ st.consumed_approvals := by
  simp [approves, and_assoc]

variable [LE Cost]


/-- One step of call `n` from a phase to the next, with the state after. -/
inductive Moved (st : BudgetState Cost) (n : Nat) :
    RunPhase Cost → RunPhase Cost → BudgetState Cost → Prop where
  | rejected : Moved st n .started .failed (st.move n .failed)
  | admitted : Moved st n .started .admitted (st.move n .admitted)
  | unpriced : Moved st n .admitted .failed (st.move n .failed)
  | within {p : Price Cost} (h : ¬ p.Exceeds) :
      Moved st n .admitted (.running p none) (st.move n (.running p none))
  | over_budget {p : Price Cost} (h : p.Exceeds) :
      Moved st n .admitted (.waiting p) (st.move n (.waiting p))
  | locked {p : Price Cost} (h : st.consumed_lock = none) :
      Moved st n (.waiting p) (.locked p) { st.move n (.locked p) with consumed_lock := some n }
  | iterated {p : Price Cost} :
      Moved st n (.locked p) (.scanning p 0 st.gates.size)
        (st.move n (.scanning p 0 st.gates.size))
  | resized {p : Price Cost} {i size : Nat} :
      Moved st n (.scanning p i size) .failed { st.move n .failed with consumed_lock := none }
  | exhausted {p : Price Cost} {i size : Nat} :
      Moved st n (.scanning p i size) (.denied p) { st.move n (.denied p) with consumed_lock := none }
  | fetched {p : Price Cost} {i size r : Nat} (h : r ∈ st.gates.values) :
      Moved st n (.scanning p i size) (.testing p i size r) (st.move n (.testing p i size r))
  | passed_over {p : Price Cost} {i size r : Nat} :
      Moved st n (.testing p i size r) (.scanning p (i + 1) size)
        (st.move n (.scanning p (i + 1) size))
  | approved {p : Price Cost} {i size r : Nat} {g : Gate} (h : st.Approval r g)
      (hfresh : g.id ∉ st.consumed_approvals) :
      Moved st n (.testing p i size r) (.spending p r) (st.move n (.spending p r))
  | spent {p : Price Cost} {r : Nat} :
      Moved st n (.spending p r) (.running p (some r))
        { st.move n (.running p (some r)) with
          consumed_lock := none
          consumed_approvals := st.consumed_approvals ++ st.objects[r]?.toList.map (·.id) }
  | asked {p : Price Cost} (gate : Gate) :
      Moved st n (.denied p) (.refused p gate.id)
        ((st.open_gate gate).move n (.refused p gate.id))

/-- The next step of a call leaves the state, or moves the call. -/
theorem advance_cases [DecidableLE Cost] (fmt : Cost → String) (st : BudgetState Cost) (n : Nat)
    (price : Option (Price Cost)) (gate_id : String) :
    st.advance fmt n price gate_id = st ∨ ∃ q q', st.runs[n]? = some q ∧
      Moved st n q q' (st.advance fmt n price gate_id) := by
  cases hq : st.runs[n]? with
  | none =>
      left
      simp only [advance, hq]
  | some q =>
      suffices h : st.advance fmt n price gate_id = st ∨
          ∃ q', Moved st n q q' (st.advance fmt n price gate_id) from
        h.imp_right fun ⟨q', h⟩ => ⟨q, q', rfl, h⟩
      unfold advance
      rw [hq]
      cases q with
      | started =>
          right
          by_cases h : st.has_open_gate = true
          · simp only [if_pos h]
            exact ⟨_, .rejected⟩
          · simp only [if_neg h]
            exact ⟨_, .admitted⟩
      | admitted =>
          right
          cases price with
          | none => exact ⟨_, .unpriced⟩
          | some p =>
              by_cases h : p.estimated_cost ≤ p.budget_ceiling
              · simp only [if_pos h]
                exact ⟨_, .within (not_not.mpr h)⟩
              · simp only [if_neg h]
                exact ⟨_, .over_budget h⟩
      | waiting p =>
          by_cases h : st.consumed_lock = none
          · simp only [if_pos h]
            exact .inr ⟨_, .locked h⟩
          · left
            simp only [if_neg h]
      | locked p => exact .inr ⟨_, .iterated⟩
      | scanning p i size =>
          right
          by_cases h : st.gates.size ≠ size
          · simp only [if_pos h]
            exact ⟨_, .resized⟩
          · simp only [if_neg h]
            cases hr : st.gates.values[i]? with
            | none => exact ⟨_, .exhausted⟩
            | some r => exact ⟨_, .fetched (List.mem_of_getElem? hr)⟩
      | testing p i size r =>
          right
          by_cases h : st.objects[r]?.any st.approves = true
          · simp only [if_pos h]
            obtain ⟨g, hg, happroves⟩ := (Option.any_eq_true _ _).mp h
            obtain ⟨hphase, hstatus, hfresh⟩ := approves_iff.mp happroves
            exact ⟨_, .approved ⟨hg, hphase, hstatus⟩ hfresh⟩
          · simp only [if_neg h]
            exact ⟨_, .passed_over⟩
      | spending p r => exact .inr ⟨_, .spent⟩
      | denied p => exact .inr ⟨_, .asked (budget_gate fmt p gate_id)⟩
      | running | refused | failed => exact .inl rfl

theorem Moved.runs {n : Nat} {q q' : RunPhase Cost} {st' : BudgetState Cost}
    (h : Moved st n q q' st') : st'.runs = st.runs.set n q' := by
  cases h <;> rfl

theorem Moved.kept {n : Nat} {q q' : RunPhase Cost} {st' : BudgetState Cost}
    (hst : st.Keyed) (h : Moved st n q q' st') : st'.Keyed ∧ ObjectsKept st st' := by
  cases h with
  | asked => exact ⟨(hst.open_gate _).of_eq rfl rfl, objectsKept_open_gate _⟩
  | _ => exact ⟨hst.of_eq rfl rfl, ObjectsKept.of_eq rfl⟩

/-! ## The invariant -/

/-- What holds of call `n` in its phase: between taking the lock and
releasing it the call is the holder, and past the budget check it is within
budget or has an approval that is spent. -/
def PhaseOk (st : BudgetState Cost) (n : Nat) : RunPhase Cost → Prop
  | .waiting p | .denied p => p.Exceeds
  | .locked p | .scanning p _ _ => p.Exceeds ∧ st.consumed_lock = some n
  | .testing p _ _ _ => p.Exceeds ∧ st.consumed_lock = some n
  | .spending p r => p.Exceeds ∧ st.consumed_lock = some n ∧
      ∃ g, st.Approval r g ∧ g.id ∉ st.consumed_approvals
  | .running p none => ¬ p.Exceeds
  | .running p (some r) => p.Exceeds ∧ ∃ g, st.Approval r g ∧ g.id ∈ st.consumed_approvals
  | .started | .admitted | .refused .. | .failed => True

structure Inv (st : BudgetState Cost) : Prop where
  keyed : st.Keyed
  phase : ∀ (n : Nat) (q : RunPhase Cost), st.runs[n]? = some q → st.PhaseOk n q
  distinct : ∀ (n m : Nat) (p p' : Price Cost) (r r' : Nat) (g g' : Gate),
    st.runs[n]? = some (.running p (some r)) → st.runs[m]? = some (.running p' (some r')) → n ≠ m →
    st.objects[r]? = some g → st.objects[r']? = some g' → g.id ≠ g'.id

/-- A call that the step is not about stays in order. -/
theorem PhaseOk.kept {st' : BudgetState Cost} {n : Nat} {q : RunPhase Cost} (h : st.PhaseOk n q)
    (hobjects : ObjectsKept st st')
    (hconsumed : ∀ id ∈ st.consumed_approvals, id ∈ st'.consumed_approvals)
    (hlock : st.consumed_lock = some n → st'.consumed_lock = some n ∧
      st'.consumed_approvals = st.consumed_approvals) : st'.PhaseOk n q := by
  cases q with
  | locked | scanning | testing => exact ⟨h.1, (hlock h.2).1⟩
  | spending p r =>
      obtain ⟨hp, hholds, g, hg, hfresh⟩ := h
      obtain ⟨g', hg', hid⟩ := hg.kept hobjects
      obtain ⟨hlock', hsame⟩ := hlock hholds
      exact ⟨hp, hlock', g', hg', by rwa [hid, hsame]⟩
  | running p approval =>
      cases approval with
      | none => exact h
      | some r =>
          obtain ⟨hp, g, hg, hspent⟩ := h
          obtain ⟨g', hg', hid⟩ := hg.kept hobjects
          exact ⟨hp, g', hg', hid ▸ hconsumed _ hspent⟩
  | _ => exact h

/-- Approvals stay distinct while the calls stay in their phases. -/
theorem Inv.distinct_kept {st' : BudgetState Cost} (hst : st.Inv) (hobjects : ObjectsKept st st')
    {n m : Nat} {p p' : Price Cost} {r r' : Nat} {g g' : Gate}
    (hn : st.runs[n]? = some (.running p (some r)))
    (hm : st.runs[m]? = some (.running p' (some r'))) (hnm : n ≠ m)
    (hg : st'.objects[r]? = some g) (hg' : st'.objects[r']? = some g') : g.id ≠ g'.id := by
  obtain ⟨-, a, ⟨ha, -⟩, -⟩ := hst.phase n _ hn
  obtain ⟨-, b, ⟨hb, -⟩, -⟩ := hst.phase m _ hm
  obtain ⟨g₁, hg₁, hid, -⟩ := hobjects r a ha
  obtain ⟨g₂, hg₂, hid', -⟩ := hobjects r' b hb
  rw [hg, Option.some.injEq] at hg₁
  rw [hg', Option.some.injEq] at hg₂
  rw [hg₁, hg₂, hid, hid']
  exact hst.distinct n m p p' r r' a b hn hm hnm ha hb

/-- A step that moves no call keeps the invariant. -/
theorem Inv.of_runs_eq {st' : BudgetState Cost} (hst : st.Inv) (hkeyed : st'.Keyed)
    (hobjects : ObjectsKept st st') (hruns : st'.runs = st.runs)
    (hconsumed : ∀ id ∈ st.consumed_approvals, id ∈ st'.consumed_approvals)
    (hlock : ∀ n, st.consumed_lock = some n → st'.consumed_lock = some n ∧
      st'.consumed_approvals = st.consumed_approvals) : st'.Inv where
  keyed := hkeyed
  phase n q hq := (hst.phase n q (hruns ▸ hq)).kept hobjects hconsumed (hlock n)
  distinct _ _ _ _ _ _ _ _ hn hm hnm hg hg' :=
    hst.distinct_kept hobjects (hruns ▸ hn) (hruns ▸ hm) hnm hg hg'

/-- The call that moves is in order in its new phase, and leaves the lock
and the spent approvals to another call that holds it. -/
theorem Moved.spec {n : Nat} {q q' : RunPhase Cost} {st' : BudgetState Cost}
    (h : Moved st n q q' st') (hq : st.PhaseOk n q) :
    st'.PhaseOk n q' ∧ (∀ id ∈ st.consumed_approvals, id ∈ st'.consumed_approvals) ∧
      ∀ m ≠ n, st.consumed_lock = some m → st'.consumed_lock = some m ∧
        st'.consumed_approvals = st.consumed_approvals := by
  have hholder : st.consumed_lock = some n → ∀ m ≠ n, st.consumed_lock ≠ some m := by
    intro h m hm h'
    rw [h, Option.some.injEq] at h'
    exact hm h'.symm
  cases h with
  | rejected | admitted | unpriced => exact ⟨trivial, fun _ h => h, fun m _ h => ⟨h, rfl⟩⟩
  | within h | over_budget h => exact ⟨h, fun _ h => h, fun m _ h => ⟨h, rfl⟩⟩
  | locked h =>
      refine ⟨⟨hq, rfl⟩, fun _ h => h, fun m _ hm => ?_⟩
      rw [h] at hm
      cases hm
  | iterated | fetched | passed_over => exact ⟨hq, fun _ h => h, fun m _ h => ⟨h, rfl⟩⟩
  | resized => exact ⟨trivial, fun _ h => h, fun m hm h => absurd h (hholder hq.2 m hm)⟩
  | exhausted => exact ⟨hq.1, fun _ h => h, fun m hm h => absurd h (hholder hq.2 m hm)⟩
  | approved h hfresh => exact ⟨⟨hq.1, hq.2, _, h, hfresh⟩, fun _ h => h, fun m _ h => ⟨h, rfl⟩⟩
  | spent =>
      obtain ⟨hp, hholds, g, hg, -⟩ := hq
      refine ⟨⟨hp, g, hg, ?_⟩, fun _ h => List.mem_append_left _ h,
        fun m hm h => absurd h (hholder hholds m hm)⟩
      simp [hg.1]
  | asked => exact ⟨trivial, fun _ h => h, fun m _ h => ⟨h, rfl⟩⟩

/-- The gate a call is about to spend is not the approval of another. -/
theorem Moved.distinct {n m : Nat} {q : RunPhase Cost} {p p' : Price Cost} {r r' : Nat}
    {st' : BudgetState Cost} {g g' : Gate} (h : Moved st n q (.running p (some r)) st')
    (hst : st.Inv) (hq : st.PhaseOk n q) (hm : st.runs[m]? = some (.running p' (some r')))
    (hg : st'.objects[r]? = some g) (hg' : st'.objects[r']? = some g') : g.id ≠ g'.id := by
  cases h with
  | spent =>
      obtain ⟨-, -, a, ⟨ha, -⟩, hfresh⟩ := hq
      obtain ⟨-, b, ⟨hb, -⟩, hspent⟩ := hst.phase m _ hm
      have hga : g = a := Option.some.inj (hg.symm.trans ha)
      have hgb : g' = b := Option.some.inj (hg'.symm.trans hb)
      intro heq
      rw [hga, hgb] at heq
      exact hfresh (heq ▸ hspent)

theorem Moved.inv {n : Nat} {q q' : RunPhase Cost} {st' : BudgetState Cost} (hst : st.Inv)
    (hq : st.runs[n]? = some q) (h : Moved st n q q' st') : st'.Inv := by
  obtain ⟨hkeyed, hobjects⟩ := h.kept hst.keyed
  obtain ⟨hself, hconsumed, hlock⟩ := h.spec (hst.phase n q hq)
  have hlt : n < st.runs.length := (List.getElem?_eq_some_iff.mp hq).1
  have hruns : ∀ m, st'.runs[m]? = if n = m then some q' else st.runs[m]? := by
    intro m
    rw [h.runs, List.getElem?_set]
    by_cases hnm : n = m
    · rw [if_pos hnm, if_pos (hnm ▸ hlt), if_pos hnm]
    · rw [if_neg hnm, if_neg hnm]
  refine ⟨hkeyed, ?_, ?_⟩
  · intro m a ha
    rw [hruns] at ha
    by_cases hnm : n = m
    · subst hnm
      rw [if_pos rfl, Option.some.injEq] at ha
      exact ha ▸ hself
    · rw [if_neg hnm] at ha
      exact (hst.phase m a ha).kept hobjects hconsumed (hlock m (Ne.symm hnm))
  · -- two approvals: one of the run that moved, at most, and the rest as before
    intro m k p p' r r' g g' hm hk hmk hg hg'
    rw [hruns] at hm hk
    by_cases hnm : n = m
    · subst hnm
      rw [if_pos rfl, Option.some.injEq] at hm
      rw [if_neg hmk] at hk
      subst hm
      exact h.distinct hst (hst.phase n q hq) hk hg hg'
    · rw [if_neg hnm] at hm
      by_cases hnk : n = k
      · subst hnk
        rw [if_pos rfl, Option.some.injEq] at hk
        subst hk
        exact (h.distinct hst (hst.phase n q hq) hm hg' hg).symm
      · rw [if_neg hnk] at hk
        exact hst.distinct_kept hobjects hm hk hmk hg hg'

end BudgetState

/-! ## One step -/

namespace BudgetStep

open BudgetState

variable [LE Cost] [DecidableLE Cost] {fmt : Cost → String} {st : BudgetState Cost}

/-- A step moves no call, starts one, or is the next step of one. -/
theorem after_cases (fmt : Cost → String) (st : BudgetState Cost)
    (a : BudgetStep Sub Diag Cost) :
    (a.after fmt st).runs = st.runs ∨
      (a.after fmt st).runs = st.runs ++ [.started] ∨
      ∃ n price id q q', a = .advance n price id ∧ st.runs[n]? = some q ∧
        Moved st n q q' (a.after fmt st) := by
  cases a with
  | request r => exact .inl (request_frame st r).2.2
  | elsewhere id =>
      left
      rw [after]
      split <;> rfl
  | execute => exact .inr (.inl rfl)
  | advance n price id =>
      rcases advance_cases fmt st n price id with h | ⟨q, q', hq, h⟩
      · exact .inl (congrArg BudgetState.runs h)
      · exact .inr (.inr ⟨n, price, id, q, q', rfl, hq, h⟩)

variable (fmt) in
theorem after_kept (hst : st.Keyed) (a : BudgetStep Sub Diag Cost) :
    (a.after fmt st).Keyed ∧ ObjectsKept st (a.after fmt st) := by
  cases a with
  | request r => exact request_next hst r
  | elsewhere id =>
      rw [after]
      split <;> exact ⟨hst.of_eq rfl rfl, ObjectsKept.of_eq rfl⟩
  | execute => exact ⟨hst.of_eq rfl rfl, ObjectsKept.of_eq rfl⟩
  | advance n price id =>
      rcases advance_cases fmt st n price id with h | ⟨q, q', -, h⟩
      · rw [after, h]
        exact ⟨hst, ObjectsKept.of_eq rfl⟩
      · exact h.kept hst

theorem after_inv (hst : st.Inv) (a : BudgetStep Sub Diag Cost) : (a.after fmt st).Inv := by
  obtain ⟨hkeyed, hobjects⟩ := after_kept fmt hst.keyed a
  cases a with
  | request r =>
      obtain ⟨hconsumed, hlock, hruns⟩ := request_frame st r
      exact hst.of_runs_eq hkeyed hobjects hruns (fun id h => hconsumed ▸ h)
        fun n h => ⟨hlock ▸ h, hconsumed⟩
  | elsewhere id =>
      by_cases hlock : st.consumed_lock = none
      · simp only [after, if_pos hlock] at hkeyed hobjects ⊢
        refine hst.of_runs_eq hkeyed hobjects rfl (fun _ h => List.mem_append_left _ h) ?_
        intro n h
        rw [hlock] at h
        cases h
      · simp only [after, if_neg hlock]
        exact hst
  | execute =>
      -- the new run is the last, and has no approval yet
      have hold : ∀ {n : Nat} {q : RunPhase Cost}, (st.runs ++ [.started])[n]? = some q →
          st.runs[n]? = some q ∨ q = .started := by
        intro n q h
        rw [List.getElem?_append] at h
        split at h
        next => exact .inl h
        next =>
          right
          have hmem := List.mem_of_getElem? h
          exact List.mem_singleton.mp hmem
      refine ⟨hkeyed, ?_, ?_⟩
      · intro n q hq
        rcases hold hq with h | rfl
        · exact hst.phase n q h
        · trivial
      · intro n m p p' r r' g g' hn hm
        rcases hold hn with hn | hn
        · rcases hold hm with hm | hm
          · exact hst.distinct n m p p' r r' g g' hn hm
          · cases hm
        · cases hn
  | advance n price id =>
      rcases advance_cases fmt st n price id with h | ⟨q, q', hq, h⟩
      · rw [after, h]
        exact hst
      · exact h.inv hst hq

/-- A call in a phase after a step was in it before, has started, or has
just moved there. -/
theorem phase_next {a : BudgetStep Sub Diag Cost} {m : Nat} {q' : RunPhase Cost}
    (h : (a.after fmt st).runs[m]? = some q') :
    st.runs[m]? = some q' ∨ q' = .started ∨
      ∃ price id q, a = .advance m price id ∧ st.runs[m]? = some q ∧
        Moved st m q q' (a.after fmt st) := by
  rcases after_cases fmt st a with hruns | hruns | ⟨n, price, id, q, q₀, ha, hq, hmoved⟩
  · exact .inl (hruns ▸ h)
  · rw [hruns, List.getElem?_append] at h
    split at h
    next => exact .inl h
    next => exact .inr (.inl (List.mem_singleton.mp (List.mem_of_getElem? h)))
  · rw [hmoved.runs, List.getElem?_set] at h
    by_cases hnm : n = m
    · subst hnm
      rw [if_pos rfl, if_pos (List.getElem?_eq_some_iff.mp hq).1, Option.some.injEq] at h
      subst h
      exact .inr (.inr ⟨price, id, q, ha, hq, hmoved⟩)
    · rw [if_neg hnm] at h
      exact .inl h

/-- A call that got past the budget check stays there. -/
theorem running_stays {n : Nat} {p : Price Cost} {approval : Option Nat}
    (h : st.runs[n]? = some (.running p approval)) (a : BudgetStep Sub Diag Cost) :
    (a.after fmt st).runs[n]? = some (.running p approval) := by
  rcases after_cases fmt st a with hruns | hruns | ⟨m, price, id, q, q', -, hq, hmoved⟩
  · rw [hruns, h]
  · rw [hruns, List.getElem?_append_left (List.getElem?_eq_some_iff.mp h).1, h]
  · have hmn : m ≠ n := by
      rintro rfl
      rw [h, Option.some.injEq] at hq
      subst hq
      cases hmoved
    rw [hmoved.runs, List.getElem?_set_ne hmn, h]

/-- An approval spent in a step was spent by another session, or by a call
that has just got past the budget check with it. -/
theorem consumed_next {a : BudgetStep Sub Diag Cost} {id : String}
    (h : id ∈ (a.after fmt st).consumed_approvals) :
    id ∈ st.consumed_approvals ∨ a = .elsewhere id ∨
      ∃ (n : Nat) (p : Price Cost) (r : Nat) (g : Gate),
        (a.after fmt st).runs[n]? = some (.running p (some r)) ∧
        (a.after fmt st).objects[r]? = some g ∧ g.id = id := by
  cases a with
  | request r => exact .inl ((request_frame st r).1 ▸ h)
  | execute => exact .inl h
  | elsewhere gid =>
      by_cases hlock : st.consumed_lock = none
      · simp only [after, if_pos hlock] at h
        rcases List.mem_append.mp h with h | h
        · exact .inl h
        · exact .inr (.inl (by rw [List.mem_singleton.mp h]))
      · simp only [after, if_neg hlock] at h
        exact .inl h
  | advance n price gid =>
      rw [after] at h ⊢
      rcases advance_cases fmt st n price gid with heq | ⟨q, q', hq, hmoved⟩
      · exact .inl (heq ▸ h)
      · revert h hmoved
        generalize st.advance fmt n price gid = st'
        intro h hmoved
        cases hmoved with
        -- the only step of a run that spends
        | @spent p r =>
            rcases List.mem_append.mp h with h | h
            · exact .inl h
            · obtain ⟨g, hg, rfl⟩ := List.mem_map.mp h
              rw [Option.mem_toList] at hg
              refine .inr (.inr ⟨n, p, r, g, ?_, hg, rfl⟩)
              exact List.getElem?_set_self (List.getElem?_eq_some_iff.mp hq).1
        | _ => exact .inl h

end BudgetStep

/-! ## Runs -/

section Law

variable [LE Cost] [DecidableLE Cost]

/-- A session without gates or calls, after other sessions have spent some
approvals. -/
def BudgetState.start (spent : List String) : BudgetState Cost :=
  { consumed_approvals := spent }

/-- The state after a run of steps. -/
def reached (fmt : Cost → String) (spent : List String)
    (steps : List (BudgetStep Sub Diag Cost)) : BudgetState Cost :=
  Runs.run (BudgetStep.after fmt) (.start spent) steps

/-- At some moment while call `n` was testing gate object `r`, the session
had that object under its id, with this status. -/
def Examined (fmt : Cost → String) (spent : List String) (steps : List (BudgetStep Sub Diag Cost))
    (n r : Nat) (status : GateStatus) : Prop :=
  ∃ pre post, steps = pre ++ post ∧ ∃ p i size g,
    (reached fmt spent pre).runs[n]? = some (.testing p i size r) ∧
    (reached fmt spent pre).gates.get? g.id = some r ∧
    (reached fmt spent pre).objects[r]? = some g ∧ g.status = status

/-- Call `n` has spent gate object `r`: a gate that it found closed under
its id, which at that step is a closed `budget_check` gate whose id is not
spent, and then is. -/
def SpentBy (fmt : Cost → String) (spent : List String) (steps : List (BudgetStep Sub Diag Cost))
    (n r : Nat) : Prop :=
  ∃ pre price gate_id post, steps = pre ++ .advance n price gate_id :: post ∧
    Examined fmt spent pre n r .CLOSED ∧
    ∃ g, (reached fmt spent pre).Approval r g ∧
      g.id ∉ (reached fmt spent pre).consumed_approvals ∧
      g.id ∈ (reached fmt spent (pre ++ [.advance n price gate_id])).consumed_approvals

/-- What the budget check promises over a run of steps. -/
structure BudgetLaw (fmt : Cost → String) (spent : List String)
    (steps : List (BudgetStep Sub Diag Cost)) : Prop where
  /-- A call over budget that proceeds has spent a gate. -/
  over_budget : ∀ (n : Nat) (p : Price Cost) (approval : Option Nat),
    (reached fmt spent steps).runs[n]? = some (.running p approval) → p.Exceeds →
    ∃ r, approval = some r ∧ SpentBy fmt spent steps n r
  /-- A call within budget has spent none. -/
  within : ∀ (n : Nat) (p : Price Cost) (approval : Option Nat),
    (reached fmt spent steps).runs[n]? = some (.running p approval) → ¬ p.Exceeds →
    approval = none
  /-- Two calls have spent gates of different ids. -/
  distinct : ∀ (n m : Nat) (p p' : Price Cost) (r r' : Nat), n ≠ m →
    (reached fmt spent steps).runs[n]? = some (.running p (some r)) →
    (reached fmt spent steps).runs[m]? = some (.running p' (some r')) →
    ∃ g g', (reached fmt spent steps).objects[r]? = some g ∧
      (reached fmt spent steps).objects[r']? = some g' ∧ g.id ≠ g'.id
  /-- Every spent id was spent before, by another session, or by a call that
  proceeds with it. -/
  accounted : ∀ id ∈ (reached fmt spent steps).consumed_approvals,
    id ∈ spent ∨ .elsewhere id ∈ steps ∨ ∃ (n : Nat) (p : Price Cost) (r : Nat) (g : Gate),
      (reached fmt spent steps).runs[n]? = some (.running p (some r)) ∧
      (reached fmt spent steps).objects[r]? = some g ∧ g.id = id
  /-- A request changes the gates under their ids as it does in the session store. -/
  stored : ∀ (r : RecordRequest Sub Diag) (c : CollaborationState Sub Diag),
    (∀ id, c.gates.get? id = (reached fmt spent steps).record id) → r.Checked c →
    ∀ id, (r.effect c).gates.get? id = ((reached fmt spent steps).request r).record id

variable {fmt : Cost → String} {spent : List String} {steps : List (BudgetStep Sub Diag Cost)}

theorem reached_concat (a : BudgetStep Sub Diag Cost) :
    reached fmt spent (steps ++ [a]) = a.after fmt (reached fmt spent steps) :=
  Runs.run_concat steps a

theorem reached_inv (steps : List (BudgetStep Sub Diag Cost)) :
    (reached fmt spent steps).Inv := by
  refine Runs.invariant (P := BudgetState.Inv) ⟨?_, ?_, ?_⟩ (fun _ a h => BudgetStep.after_inv h a)
    steps
  · intro id r h
    cases h
  · intro n q h
    cases h
  · intro n m p p' r r' g g' h
    cases h

theorem Examined.more {n r : Nat} {status : GateStatus} (h : Examined fmt spent steps n r status)
    (a : BudgetStep Sub Diag Cost) : Examined fmt spent (steps ++ [a]) n r status := by
  obtain ⟨pre, post, rfl, h⟩ := h
  exact ⟨pre, post ++ [a], by simp, h⟩

theorem SpentBy.more {n r : Nat} (h : SpentBy fmt spent steps n r)
    (a : BudgetStep Sub Diag Cost) : SpentBy fmt spent (steps ++ [a]) n r := by
  obtain ⟨pre, price, id, post, rfl, h⟩ := h
  exact ⟨pre, price, id, post ++ [a], by simp, h⟩

/-- A call testing a gate object has seen it with its present status. -/
theorem examined_of_testing {n r i size : Nat} {p : Price Cost}
    (hn : (reached fmt spent steps).runs[n]? = some (.testing p i size r)) :
    ∃ g, (reached fmt spent steps).objects[r]? = some g ∧
      Examined fmt spent steps n r g.status := by
  induction steps using List.reverseRecOn with
  | nil => cases hn
  | append_singleton steps a ih =>
      have hinv : (reached fmt spent steps).Inv := reached_inv steps
      obtain ⟨-, hobjects⟩ := BudgetStep.after_kept fmt hinv.keyed a
      have hnow : ∀ g, (reached fmt spent (steps ++ [a])).gates.get? g.id = some r →
          (reached fmt spent (steps ++ [a])).objects[r]? = some g →
          Examined fmt spent (steps ++ [a]) n r g.status := fun g hid hg =>
        ⟨steps ++ [a], [], by simp, p, i, size, g, hn, hid, hg, rfl⟩
      rw [reached_concat] at hn hnow ⊢
      rcases BudgetStep.phase_next hn with hold | hstarted | ⟨price, id, q, -, hq, hmoved⟩
      · obtain ⟨g, hg, hexamined⟩ := ih hold
        obtain ⟨g', hg', hid, -, hstatus | ⟨-, hrecord⟩⟩ := hobjects r g hg
        · exact ⟨g', hg', hstatus ▸ hexamined.more a⟩
        · exact ⟨g', hg', hnow g' (hid ▸ hrecord) hg'⟩
      · cases hstarted
      · generalize hst' : a.after fmt (reached fmt spent steps) = st' at hmoved
        rw [hst'] at hnow
        cases hmoved with
        | fetched hr =>
            obtain ⟨id, hid⟩ := (Dict.mem_values_iff _).mp hr
            obtain ⟨g, hg, rfl⟩ := hinv.keyed id r hid
            exact ⟨g, hg, hnow g hid hg⟩

/-- A call about to spend a gate object has seen it closed. -/
theorem examined_of_spending {n r : Nat} {p : Price Cost}
    (hn : (reached fmt spent steps).runs[n]? = some (.spending p r)) :
    Examined fmt spent steps n r .CLOSED := by
  induction steps using List.reverseRecOn with
  | nil => cases hn
  | append_singleton steps a ih =>
      rw [reached_concat] at hn
      rcases BudgetStep.phase_next hn with hold | hstarted | ⟨price, id, q, -, hq, hmoved⟩
      · exact (ih hold).more a
      · cases hstarted
      · generalize a.after fmt (reached fmt spent steps) = st' at hmoved
        cases hmoved with
        | approved happroval =>
            obtain ⟨g, hg, hexamined⟩ := examined_of_testing hq
            rw [happroval.1, Option.some.injEq] at hg
            rw [← hg, happroval.2.2] at hexamined
            exact hexamined.more a

/-- A call that proceeds with an approval has spent it. -/
theorem spentBy_of_running {n r : Nat} {p : Price Cost}
    (hn : (reached fmt spent steps).runs[n]? = some (.running p (some r))) :
    SpentBy fmt spent steps n r := by
  induction steps using List.reverseRecOn with
  | nil => cases hn
  | append_singleton steps a ih =>
      have hinv : (reached fmt spent (steps ++ [a])).Inv := reached_inv (steps ++ [a])
      rw [reached_concat] at hn hinv
      rcases BudgetStep.phase_next hn with hold | hstarted | ⟨price, id, q, rfl, hq, hmoved⟩
      · exact (ih hold).more a
      · cases hstarted
      · obtain ⟨-, g', ⟨hg', -⟩, hspent⟩ := hinv.phase n _ hn
        refine ⟨steps, price, id, [], rfl, ?_⟩
        rw [reached_concat]
        generalize BudgetStep.after fmt (reached fmt spent steps) (.advance n price id) = st'
          at hmoved hg' hspent ⊢
        cases hmoved with
        | spent =>
            obtain ⟨-, -, g, hg, hfresh⟩ := (reached_inv steps).phase n _ hq
            have heq : g' = g := Option.some.inj (hg'.symm.trans hg.1)
            exact ⟨examined_of_spending hq, g, hg, hfresh, heq ▸ hspent⟩

end Law

/-- Over every interleaving of runs, requests on the gates and other
sessions, an approval is spent at most once, and only by a run over budget
that proceeds with it. -/
theorem budget_approvals_spent_once [LE Cost] [DecidableLE Cost] (fmt : Cost → String)
    (spent : List String) (steps : List (BudgetStep Sub Diag Cost)) :
    BudgetLaw fmt spent steps := by
  have hinv : (reached fmt spent steps).Inv := reached_inv steps
  refine ⟨?_, ?_, ?_, ?_, fun _ _ hc hchecked => BudgetState.record_request hinv.keyed hc hchecked⟩
  · intro n p approval hn hover
    cases approval with
    | none => exact absurd hover (hinv.phase n _ hn)
    | some r => exact ⟨r, rfl, spentBy_of_running hn⟩
  · intro n p approval hn hwithin
    cases approval with
    | none => rfl
    | some r => exact absurd (hinv.phase n _ hn).1 hwithin
  · intro n m p p' r r' hnm hn hm
    obtain ⟨-, g, ⟨hg, -⟩, -⟩ := hinv.phase n _ hn
    obtain ⟨-, g', ⟨hg', -⟩, -⟩ := hinv.phase m _ hm
    exact ⟨g, g', hg, hg', hinv.distinct n m p p' r r' g g' hn hm hnm hg hg'⟩
  · -- the ids come from the start, from elsewhere, or from a run that is still running
    clear hinv
    induction steps using List.reverseRecOn with
    | nil => exact fun id h => .inl h
    | append_singleton steps a ih =>
        intro id h
        rw [reached_concat] at h ⊢
        rcases BudgetStep.consumed_next h with hold | rfl | hrunning
        · rcases ih id hold with hspent | helsewhere | ⟨n, p, r, g, hn, hg, rfl⟩
          · exact .inl hspent
          · exact .inr (.inl (List.mem_append_left _ helsewhere))
          · obtain ⟨g', hg', hid, -⟩ :=
              (BudgetStep.after_kept fmt (reached_inv steps).keyed a).2 r g hg
            exact .inr (.inr ⟨n, p, r, g', BudgetStep.running_stays hn a, hg', hid⟩)
        · exact .inr (.inl (by simp))
        · exact .inr (.inr hrunning)

/-- The first call is refused, its gate is closed, the second call proceeds
with it, and the third is refused again. -/
example :
    let call (n : Nat) (id : String) : List (BudgetStep Empty Unit Nat) :=
      .execute :: List.replicate 8 (.advance n (some ⟨2, 1⟩) id)
    (reached Nat.repr [] (call 0 "a" ++ .request (.close_gate "s" "a") :: call 1 "b" ++
        call 2 "c")).runs =
      [.refused ⟨2, 1⟩ "a", .running ⟨2, 1⟩ (some 0), .refused ⟨2, 1⟩ "c"] := by
  rfl

end EmergentFlow
