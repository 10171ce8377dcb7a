import EmergentFlow.Collab.EditTools
import EmergentFlow.Collab.SessionRuns
import EmergentFlow.Lib.Runs

/-!
# Collab — EditToolRuns

Calls of the graph-editing tools among the calls of other clients. A tool
holds the live session object: it reads `session.graph`, computes its
mutation, then reads `session.version`, then submits. Each of the three is
a step, and other clients may call the store between any two.

`EditLaw` says that a tool's mutation is applied only to the graph it was
computed from, and `edit_law_iff` which runs obey it.
-/

namespace EmergentFlow

open Transaction

variable {Sub Diag : Type}

/-! ## Steps -/

/-- Where a call of a tool has got to, with what it has read. -/
inductive EditPhase (Sub : Type) where
  | started
  | holding (graph : Graph Sub)
  | ready (graph : Graph Sub) (mutation : GraphMutation Sub)
  | failed (e : ToolError)
  | submitted (result : Except SessionError Unit)

/-- The session store and the calls of tools so far. -/
structure EditState (Sub Diag : Type) where
  store : SessionStore Sub Diag
  calls : List (EditRequest × EditPhase Sub) := []

/-- A call of another client, a new call of a tool, or the next step of
tool call `n`, which may take a fresh checkpoint id. -/
inductive EditStep (Sub : Type) where
  | other (c : Call Sub)
  | call (r : EditRequest)
  | advance (n : Nat) (checkpoint_id : String)

/-- `_apply_mutation`: the mutation carries the author and description. -/
def EditRequest.submission (r : EditRequest) (m : GraphMutation Sub) (checkpoint_id : String) :
    Call Sub :=
  .apply_direct_mutation r.session_id m (.str m.author) (.str m.description) checkpoint_id

namespace EditState

def session (st : EditState Sub Diag) (sid : String) : Option (GraphSession Sub Diag) :=
  st.store.sessions.get? sid

def move (st : EditState Sub Diag) (n : Nat) (r : EditRequest) (phase : EditPhase Sub) :
    EditState Sub Diag :=
  { st with calls := st.calls.set n (r, phase) }

/-- The next step of a tool call. -/
def advance (str : ParamValue → String) (v : Validation Sub Diag) (st : EditState Sub Diag)
    (n : Nat) (checkpoint_id : String) : EditState Sub Diag :=
  match st.calls[n]? with
  | some (r, .started) =>
      match st.session r.session_id with
      | none => st.move n r (.submitted (.error (.unknown_session r.session_id)))
      | some s => st.move n r (.holding s.graph)
  | some (r, .holding g) =>
      match r.mutation str g, st.session r.session_id with
      | .error e, _ => st.move n r (.failed e)
      | .ok m, some s => st.move n r (.ready g (m s.version))
      | .ok _, none => st
  | some (r, .ready _ m) =>
      let (result, store) := (r.submission m checkpoint_id).run v st.store
      { st.move n r (.submitted result) with store := store }
  | _ => st

end EditState

/-- The state after a step. -/
def EditStep.after (str : ParamValue → String) (v : Validation Sub Diag)
    (st : EditState Sub Diag) : EditStep Sub → EditState Sub Diag
  | .other c => { st with store := c.after v st.store }
  | .call r => { st with calls := st.calls ++ [(r, .started)] }
  | .advance n checkpoint_id => st.advance str v n checkpoint_id

/-- The state after a list of steps, with no tool called before. -/
def edited (str : ParamValue → String) (v : Validation Sub Diag) (store : SessionStore Sub Diag)
    (steps : List (EditStep Sub)) : EditState Sub Diag :=
  Runs.run (EditStep.after str v) { store := store } steps

/-! ## What a step does -/

section Step

variable {str : ParamValue → String} {v : Validation Sub Diag} {st : EditState Sub Diag}

/-- The next step of tool call `n`, from a phase to the next, with the
state after. -/
inductive EditMoved (str : ParamValue → String) (v : Validation Sub Diag)
    (st : EditState Sub Diag) (n : Nat) (cid : String) :
    EditRequest → EditPhase Sub → EditPhase Sub → EditState Sub Diag → Prop where
  | unknown {r : EditRequest} :
      EditMoved str v st n cid r .started (.submitted (.error (.unknown_session r.session_id)))
        (st.move n r (.submitted (.error (.unknown_session r.session_id))))
  | read {r : EditRequest} {s : GraphSession Sub Diag} (hs : st.session r.session_id = some s) :
      EditMoved str v st n cid r .started (.holding s.graph) (st.move n r (.holding s.graph))
  | failed {r : EditRequest} {g : Graph Sub} {e : ToolError} :
      EditMoved str v st n cid r (.holding g) (.failed e) (st.move n r (.failed e))
  | computed {r : EditRequest} {g : Graph Sub} {m : Int → GraphMutation Sub}
      {s : GraphSession Sub Diag} (hm : r.mutation str g = .ok m)
      (hs : st.session r.session_id = some s) :
      EditMoved str v st n cid r (.holding g) (.ready g (m s.version))
        (st.move n r (.ready g (m s.version)))
  | submitted {r : EditRequest} {g : Graph Sub} {m : GraphMutation Sub}
      {result : Except SessionError Unit} {store : SessionStore Sub Diag}
      (hrun : (r.submission m cid).run v st.store = (result, store)) :
      EditMoved str v st n cid r (.ready g m) (.submitted result)
        { st.move n r (.submitted result) with store := store }

theorem EditState.advance_cases (str : ParamValue → String) (v : Validation Sub Diag)
    (st : EditState Sub Diag) (n : Nat) (cid : String) :
    st.advance str v n cid = st ∨ ∃ r old new, st.calls[n]? = some (r, old) ∧
      EditMoved str v st n cid r old new (st.advance str v n cid) := by
  unfold EditState.advance
  split
  next r hcall =>
    right
    split
    next => exact ⟨r, _, _, hcall, .unknown⟩
    next s hs => exact ⟨r, _, _, hcall, .read hs⟩
  next r g hcall =>
    split
    next e hm => exact .inr ⟨r, _, _, hcall, .failed⟩
    next m s hm hs => exact .inr ⟨r, _, _, hcall, .computed hm hs⟩
    next => exact .inl rfl
  next r g m hcall => exact .inr ⟨r, _, _, hcall, .submitted rfl⟩
  next => exact .inl rfl

theorem EditMoved.calls {n : Nat} {cid : String} {r : EditRequest} {old new : EditPhase Sub}
    {st' : EditState Sub Diag} (h : EditMoved str v st n cid r old new st') :
    st'.calls = st.calls.set n (r, new) := by
  cases h <;> rfl

/-- A step leaves the store or is a call on it. -/
theorem EditStep.store_next (str : ParamValue → String) (v : Validation Sub Diag)
    (st : EditState Sub Diag) (a : EditStep Sub) :
    (a.after str v st).store = st.store ∨
      ∃ c : Call Sub, (a.after str v st).store = c.after v st.store := by
  cases a with
  | other c => exact .inr ⟨c, rfl⟩
  | call r => exact .inl rfl
  | advance n cid =>
      rw [after]
      rcases st.advance_cases str v n cid with h | ⟨r, old, new, -, h⟩
      · exact .inl (congrArg EditState.store h)
      · generalize st.advance str v n cid = st' at h
        cases h with
        | unknown | read | failed | computed => exact .inl rfl
        | submitted hrun => exact .inr ⟨_, (congrArg Prod.snd hrun).symm⟩

variable (str v) in
/-- A session stays; its version never falls, and while it is the same so
is the graph. -/
theorem EditStep.session_next {sid : String} {s : GraphSession Sub Diag}
    (hs : st.session sid = some s) (a : EditStep Sub) :
    ∃ s', (a.after str v st).session sid = some s' ∧ s.version ≤ s'.version ∧
      (s'.version = s.version → s'.graph = s.graph) := by
  rw [EditState.session] at hs ⊢
  rcases EditStep.store_next str v st a with h | ⟨c, h⟩
  · rw [h]
    exact ⟨s, hs, le_refl _, fun _ => rfl⟩
  · obtain ⟨s', hs', hversion, hgraph⟩ := version_next (v := v) (c := c) hs
    rw [h]
    refine ⟨s', hs', ?_, ?_⟩
    · split at hversion <;> omega
    · intro heq
      apply hgraph
      by_contra hne
      rw [if_pos (by simpa using hne)] at hversion
      omega

/-- A tool call in a phase after a step was in it before, has just been
made, or has just moved there. -/
theorem EditStep.call_next {a : EditStep Sub} {n : Nat} {r : EditRequest} {phase : EditPhase Sub}
    (h : (a.after str v st).calls[n]? = some (r, phase)) :
    st.calls[n]? = some (r, phase) ∨ phase = .started ∨ ∃ cid old, a = .advance n cid ∧
      st.calls[n]? = some (r, old) ∧ EditMoved str v st n cid r old phase (a.after str v st) := by
  cases a with
  | other c => exact .inl h
  | call r =>
      rw [after, List.getElem?_append] at h
      split at h
      next => exact .inl h
      next =>
        have hmem := List.mem_singleton.mp (List.mem_of_getElem? h)
        exact .inr (.inl (congrArg Prod.snd hmem))
  | advance k cid =>
      rw [after] at h ⊢
      rcases st.advance_cases str v k cid with heq | ⟨r', old, new, hold, hmoved⟩
      · exact .inl (heq ▸ h)
      · rw [hmoved.calls, List.getElem?_set] at h
        by_cases hkn : k = n
        · subst hkn
          rw [if_pos rfl, if_pos (List.getElem?_eq_some_iff.mp hold).1, Option.some.injEq,
            Prod.mk.injEq] at h
          obtain ⟨rfl, rfl⟩ := h
          exact .inr (.inr ⟨cid, old, rfl, hold, hmoved⟩)
        · rw [if_neg hkn] at h
          exact .inl h

/-- A phase behind the reading of the version, of a call that held `g`. -/
def EditPhase.Past (g : Graph Sub) (version : Int) : EditPhase Sub → Prop
  | .ready g' m => g' = g ∧ m.base_version = version
  | .failed _ | .submitted _ => True
  | .started | .holding _ => False

variable (str v) in
/-- A call that has read the version does not read it again. -/
theorem EditStep.past_next {n : Nat} {r : EditRequest} {phase : EditPhase Sub} {g : Graph Sub}
    {version : Int} (h : st.calls[n]? = some (r, phase)) (hpast : phase.Past g version)
    (a : EditStep Sub) :
    ∃ phase', (a.after str v st).calls[n]? = some (r, phase') ∧ phase'.Past g version := by
  have hlt := (List.getElem?_eq_some_iff.mp h).1
  cases a with
  | other c => exact ⟨phase, h, hpast⟩
  | call r' => exact ⟨phase, (List.getElem?_append_left hlt).trans h, hpast⟩
  | advance k cid =>
      rw [after]
      rcases st.advance_cases str v k cid with heq | ⟨r', old, new, hold, hmoved⟩
      · exact ⟨phase, by rw [heq, h], hpast⟩
      · rw [hmoved.calls]
        by_cases hkn : k = n
        · subst hkn
          rw [h, Option.some.injEq, Prod.mk.injEq] at hold
          obtain ⟨rfl, rfl⟩ := hold
          refine ⟨new, List.getElem?_set_self hlt, ?_⟩
          generalize st.advance str v k cid = st' at hmoved
          cases hmoved with
          | submitted => trivial
          | unknown | read | failed | computed => exact hpast.elim
        · exact ⟨phase, by rw [List.getElem?_set_ne hkn, h], hpast⟩

variable (str v) in
/-- Reading the version leaves the store. -/
theorem EditState.read_version {n : Nat} {r : EditRequest} {g : Graph Sub}
    {s : GraphSession Sub Diag} (h : st.calls[n]? = some (r, .holding g))
    (hs : st.session r.session_id = some s) (cid : String) :
    (st.advance str v n cid).store = st.store ∧
      ∃ phase, (st.advance str v n cid).calls[n]? = some (r, phase) ∧ phase.Past g s.version := by
  have hlt := (List.getElem?_eq_some_iff.mp h).1
  simp only [EditState.advance, h]
  cases hm : r.mutation str g with
  | error e => exact ⟨rfl, .failed e, List.getElem?_set_self hlt, trivial⟩
  | ok m =>
      rw [hs]
      exact ⟨rfl, .ready g (m s.version), List.getElem?_set_self hlt, rfl,
        EditRequest.base_version hm _⟩

variable (v) in
/-- A submission based on another version than the current one is stale. -/
theorem EditRequest.submission_stale {r : EditRequest} (m : GraphMutation Sub) (cid : String)
    {store : SessionStore Sub Diag} {s : GraphSession Sub Diag}
    (hs : store.sessions.get? r.session_id = some s) (hbase : m.base_version ≠ s.version) :
    (r.submission m cid).run v store =
      (.error (.stale_version r.session_id m.base_version s.version), store) := by
  rw [EditRequest.submission, Call.run, SessionStore.apply_direct_mutation,
    bind_of_ok (SessionStore.get_eq_ok.mpr ⟨hs, rfl⟩)]
  apply bind_eq_error.mpr
  left
  simp [check, hbase]

/-- A submission based on the current version is not. -/
theorem EditRequest.submission_current {r : EditRequest} {m : GraphMutation Sub} {cid sid : String}
    {store : SessionStore Sub Diag} {s : GraphSession Sub Diag} {expected current : Int}
    (hs : store.sessions.get? r.session_id = some s) (hbase : m.base_version = s.version) :
    ((r.submission m cid).run v store).1 ≠ .error (.stale_version sid expected current) := by
  intro h
  have hrun : (r.submission m cid).run v store =
      (.error (.stale_version sid expected current), ((r.submission m cid).run v store).2) :=
    Prod.ext h rfl
  generalize ((r.submission m cid).run v store).2 = store' at hrun
  rw [EditRequest.submission, Call.run, SessionStore.apply_direct_mutation,
    bind_of_ok (SessionStore.get_eq_ok.mpr ⟨hs, rfl⟩),
    bind_of_ok ((check_eq_ok (u := ())).mpr ⟨decide_eq_true hbase, rfl⟩)] at hrun
  rcases bind_eq_error.mp hrun with happly | ⟨g, t, -, hrun⟩
  · rw [lift_apply, Prod.mk.injEq, Checks.mapError_eq_error] at happly
    obtain ⟨⟨e, -, he⟩, -⟩ := happly
    cases he
  rcases bind_eq_error.mp hrun with hnew | ⟨c, t', -, hrun⟩
  · rw [lift_apply, Prod.mk.injEq] at hnew
    have hnew := hnew.1
    unfold Checkpoint.new at hnew
    split at hnew <;> cases hnew
  · cases hrun

end Step

/-! ## The law -/

/-- What optimistic concurrency promises about tool calls: what a
submission is applied to is what the tool has read, and one computed from
another graph is refused as stale and changes nothing. -/
structure EditLaw (str : ParamValue → String) (v : Validation Sub Diag)
    (store : SessionStore Sub Diag) (steps : List (EditStep Sub)) : Prop where
  applied : ∀ pre n cid post r g m s, steps = pre ++ .advance n cid :: post →
    (edited str v store pre).calls[n]? = some (r, .ready g m) →
    (edited str v store pre).session r.session_id = some s →
    (edited str v store (pre ++ [.advance n cid])).calls[n]? = some (r, .submitted (.ok ())) →
    s.graph = g
  refused : ∀ pre n cid post r g m s, steps = pre ++ .advance n cid :: post →
    (edited str v store pre).calls[n]? = some (r, .ready g m) →
    (edited str v store pre).session r.session_id = some s → s.graph ≠ g →
    (edited str v store (pre ++ [.advance n cid])).calls[n]? =
        some (r, .submitted (.error (.stale_version r.session_id m.base_version s.version))) ∧
      (edited str v store (pre ++ [.advance n cid])).store = (edited str v store pre).store

/-- A step of `mid`, which follows `pre`, gives session `sid` a new
version. -/
def Written (str : ParamValue → String) (v : Validation Sub Diag) (store : SessionStore Sub Diag)
    (sid : String) (pre mid : List (EditStep Sub)) : Prop :=
  ∃ done a rest s s', mid = done ++ a :: rest ∧
    (edited str v store (pre ++ done)).session sid = some s ∧
    (edited str v store (pre ++ done ++ [a])).session sid = some s' ∧ s'.version ≠ s.version

/-- Every tool reads the version of a graph that is the one it holds, or
another write lands between this and its submission. -/
def ReadsTogether (str : ParamValue → String) (v : Validation Sub Diag)
    (store : SessionStore Sub Diag) (steps : List (EditStep Sub)) : Prop :=
  ∀ pre n cid mid cid' post r g m s, steps = pre ++ .advance n cid :: mid ++ .advance n cid' :: post →
    (edited str v store pre).calls[n]? = some (r, .holding g) →
    (edited str v store pre).session r.session_id = some s →
    (edited str v store (pre ++ .advance n cid :: mid)).calls[n]? = some (r, .ready g m) →
    s.graph = g ∨ Written str v store r.session_id (pre ++ [.advance n cid]) mid

section Law

variable {str : ParamValue → String} {v : Validation Sub Diag} {store : SessionStore Sub Diag}
  {steps : List (EditStep Sub)}

theorem edited_concat (a : EditStep Sub) :
    edited str v store (steps ++ [a]) = a.after str v (edited str v store steps) :=
  Runs.run_concat steps a

/-- Steps that write nothing leave the version and the graph of a session;
others raise the version. -/
theorem session_kept_or_written {sid : String} {s : GraphSession Sub Diag}
    (pre : List (EditStep Sub)) (hs : (edited str v store pre).session sid = some s)
    (mid : List (EditStep Sub)) :
    ∃ s', (edited str v store (pre ++ mid)).session sid = some s' ∧
      (s'.version = s.version ∧ s'.graph = s.graph ∧ ¬ Written str v store sid pre mid ∨
        s.version < s'.version ∧ Written str v store sid pre mid) := by
  induction mid using List.reverseRecOn with
  | nil =>
      refine ⟨s, by rwa [List.append_nil], .inl ⟨rfl, rfl, ?_⟩⟩
      rintro ⟨done, a, rest, -, -, h, -⟩
      simp at h
  | append_singleton mid a ih =>
      obtain ⟨s', hs', h⟩ := ih
      obtain ⟨s'', hs'', hle, hgraph⟩ := EditStep.session_next str v hs' a
      rw [← edited_concat] at hs''
      have hmore : Written str v store sid pre mid → Written str v store sid pre (mid ++ [a]) := by
        rintro ⟨done, b, rest, t, t', hmid, hwrite⟩
        exact ⟨done, b, rest ++ [a], t, t', by simp [hmid], hwrite⟩
      refine ⟨s'', by rwa [← List.append_assoc], ?_⟩
      rcases h with ⟨hversion, hsame, hnot⟩ | ⟨hlt, hwritten⟩
      · -- nothing is written before the last step, so it is the one that may write
        by_cases hwrite : s''.version = s'.version
        · refine .inl ⟨hwrite.trans hversion, (hgraph hwrite).trans hsame, ?_⟩
          rintro ⟨done, b, rest, t, t', hsplit, ht, ht', hne⟩
          rcases Runs.concat_eq_split.mp hsplit with ⟨-, rfl, rfl⟩ | ⟨rest', -, hmid⟩
          · rw [hs', Option.some.injEq] at ht
            rw [hs'', Option.some.injEq] at ht'
            exact hne (ht' ▸ ht ▸ hwrite)
          · exact hnot ⟨done, b, rest', t, t', hmid, ht, ht', hne⟩
        · refine .inr ⟨by omega, mid, a, [], s', s'', rfl, hs', hs'', hwrite⟩
      · exact .inr ⟨by omega, hmore hwritten⟩

/-- A tool call about to submit has read the version while it held the
graph. -/
theorem ready_has_read {n : Nat} {r : EditRequest} {g : Graph Sub} {m : GraphMutation Sub}
    (hn : (edited str v store steps).calls[n]? = some (r, .ready g m)) :
    ∃ pre cid mid s, steps = pre ++ .advance n cid :: mid ∧
      (edited str v store pre).calls[n]? = some (r, .holding g) ∧
      (edited str v store pre).session r.session_id = some s ∧ m.base_version = s.version := by
  induction steps using List.reverseRecOn with
  | nil => cases hn
  | append_singleton steps a ih =>
      rw [edited_concat] at hn
      rcases EditStep.call_next hn with hold | hstarted | ⟨cid, old, rfl, hold, hmoved⟩
      · obtain ⟨pre, cid, mid, s, rfl, h⟩ := ih hold
        exact ⟨pre, cid, mid ++ [a], s, by simp, h⟩
      · cases hstarted
      · generalize EditStep.after str v (edited str v store steps) (.advance n cid) = st' at hmoved
        cases hmoved with
        | computed hm hs => exact ⟨steps, cid, [], _, rfl, hold, hs, EditRequest.base_version hm _⟩

/-- The mutation submitted is based on the version that was read, which is
that of the session right after. -/
theorem base_version_read {pre mid : List (EditStep Sub)} {n : Nat} {cid : String}
    {r : EditRequest} {g g' : Graph Sub} {m : GraphMutation Sub} {s : GraphSession Sub Diag}
    (hheld : (edited str v store pre).calls[n]? = some (r, .holding g))
    (hs : (edited str v store pre).session r.session_id = some s)
    (hn : (edited str v store (pre ++ .advance n cid :: mid)).calls[n]? = some (r, .ready g' m)) :
    g' = g ∧ m.base_version = s.version ∧
      (edited str v store (pre ++ [.advance n cid])).session r.session_id = some s := by
  obtain ⟨hstore, hpast⟩ := EditState.read_version str v hheld hs cid
  have hrun := Runs.invariant (P := fun st : EditState Sub Diag => ∃ phase,
      st.calls[n]? = some (r, phase) ∧ phase.Past g s.version) hpast
    (fun _ a ⟨_, h, hpast⟩ => EditStep.past_next str v h hpast a) mid
  obtain ⟨phase, hphase, hpast⟩ := hrun
  have happend : edited str v store (pre ++ .advance n cid :: mid) =
      Runs.run (EditStep.after str v) ((edited str v store pre).advance str v n cid) mid := by
    rw [edited, Runs.run_append]
    rfl
  rw [happend, hphase, Option.some.injEq, Prod.mk.injEq] at hn
  obtain ⟨-, rfl⟩ := hn
  refine ⟨hpast.1, hpast.2, ?_⟩
  rw [edited_concat, EditState.session, EditStep.after, hstore]
  exact hs

/-- What a tool call is about to submit is stale when it was computed from
another graph than the session has. -/
theorem stale_of_ne (h : ReadsTogether str v store steps) {pre post : List (EditStep Sub)}
    {n : Nat} {cid : String} {r : EditRequest} {g : Graph Sub} {m : GraphMutation Sub}
    {s : GraphSession Sub Diag} (hsteps : steps = pre ++ .advance n cid :: post)
    (hn : (edited str v store pre).calls[n]? = some (r, .ready g m))
    (hs : (edited str v store pre).session r.session_id = some s) (hne : s.graph ≠ g) :
    m.base_version ≠ s.version := by
  obtain ⟨before, cid', mid, s₀, rfl, hheld, hs₀, hbase⟩ := ready_has_read hn
  obtain ⟨-, -, hread⟩ := base_version_read hheld hs₀ hn
  obtain ⟨s', hs', hcase⟩ := session_kept_or_written _ hread mid
  rw [List.append_assoc, List.singleton_append, hs, Option.some.injEq] at hs'
  subst hs'
  rcases hcase with ⟨-, hgraph, hquiet⟩ | ⟨hlt, -⟩
  · rcases h before n cid' mid cid post r g m s₀ hsteps hheld hs₀ hn with heq | hwritten
    · exact absurd (hgraph.trans heq) hne
    · exact absurd hwritten hquiet
  · omega

end Law

/-- Tool calls obey the law exactly when each reads the version together
with the graph, or is overtaken by another write. -/
theorem edit_law_iff (str : ParamValue → String) (v : Validation Sub Diag)
    (store : SessionStore Sub Diag) (steps : List (EditStep Sub)) :
    EditLaw str v store steps ↔ ReadsTogether str v store steps := by
  constructor
  · intro h pre n cid mid cid' post r g m s hsteps hheld hs hn
    obtain ⟨-, hbase, hread⟩ := base_version_read hheld hs hn
    obtain ⟨s', hs', hcase⟩ := session_kept_or_written _ hread mid
    rw [List.append_assoc, List.singleton_append] at hs'
    rcases hcase with ⟨hversion, hgraph, -⟩ | ⟨-, hwritten⟩
    · left
      -- nothing was written since, so the graph that differs would not be refused
      by_contra hne
      obtain ⟨hstale, -⟩ := h.refused _ n cid' post r g m s' hsteps hn hs' (hgraph ▸ hne)
      rw [edited_concat, EditStep.after, EditState.advance, hn] at hstale
      have hlt := (List.getElem?_eq_some_iff.mp hn).1
      have hresult := hstale.symm.trans (List.getElem?_set_self hlt)
      rw [Option.some.injEq, Prod.mk.injEq, EditPhase.submitted.injEq] at hresult
      exact EditRequest.submission_current hs' (hbase.trans hversion.symm) hresult.2.symm
    · exact .inr hwritten
  · intro h
    have hstale : ∀ pre n cid post r g m s, steps = pre ++ .advance n cid :: post →
        (edited str v store pre).calls[n]? = some (r, .ready g m) →
        (edited str v store pre).session r.session_id = some s → s.graph ≠ g →
        edited str v store (pre ++ [.advance n cid]) = (edited str v store pre).move n r
          (.submitted (.error (.stale_version r.session_id m.base_version s.version))) := by
      intro pre n cid post r g m s hsteps hn hs hne
      have hrun := EditRequest.submission_stale v m cid hs
        (stale_of_ne h hsteps hn hs hne)
      rw [edited_concat, EditStep.after, EditState.advance, hn]
      simp only [hrun]
      rfl
    constructor
    · intro pre n cid post r g m s hsteps hn hs hok
      by_contra hne
      rw [hstale pre n cid post r g m s hsteps hn hs hne] at hok
      have hresult := hok.symm.trans (List.getElem?_set_self (List.getElem?_eq_some_iff.mp hn).1)
      cases hresult
    · intro pre n cid post r g m s hsteps hn hs hne
      rw [hstale pre n cid post r g m s hsteps hn hs hne]
      exact ⟨List.getElem?_set_self (List.getElem?_eq_some_iff.mp hn).1, rfl⟩

/-! ## An edit of a graph that is gone -/

/-- A producer whose OUT ports `p` and `q` have these names, and a
consumer. -/
def two_ports (p_name q_name : String) : Graph Empty where
  nodes := Dict.ofList [
    ("a", { id := "a", type := "t", ports := [
      { id := "p", name := p_name, direction := .OUT },
      { id := "q", name := q_name, direction := .OUT }] }),
    ("b", { id := "b", type := "t", ports := [{ id := "i", name := "in", direction := .IN }] })]

def connect_train : EditRequest where
  tool := .connect_ports "a" "train" "b" "in"
  session_id := "s"
  ids k := "e" ++ k.repr

def no_types : Validation Empty Unit where
  registry _ := none
  mutation_error _ := ()
  run_validate _ := some ()

/-- The session's graph is replaced between the two reads of the tool. -/
def replaced_between_reads : List (EditStep Empty) :=
  [.call connect_train, .advance 0 "c", .other (.replace_graph "s" (two_ports "test" "train") 0),
    .advance 0 "c", .advance 0 "c"]

/-- The tool connects port `p`, which is named `test` by now. -/
theorem replaced_between_reads_breaks_law :
    ¬ EditLaw (fun _ => "") no_types
      { sessions := Dict.empty.set "s" (.new "s" (two_ports "train" "test")) }
      replaced_between_reads := by
  intro h
  have hsame := h.applied (replaced_between_reads.take 4) 0 "c" [] connect_train
    (two_ports "train" "test") _ _ rfl rfl rfl rfl
  have hport := congrArg (fun g : Graph Empty =>
    (g.nodes.get? "a").map fun node => node.ports.map (·.name)) hsame
  revert hport
  decide

end EmergentFlow
