import EmergentFlow.Ui.RunGraph

/-!
# Ui — SingleStream

When one run at a time writes to the execution store, and each only to the
store of the graph it started on. The flag `running` keeps a second call out
while the first has not settled; replacing the graph drops the flag and not
the stream, so the law holds of the canvases on which no graph is replaced
under an unsettled run.
-/

namespace EmergentFlow.RunGraph

variable {G R : Type}

/-! ## Phases -/

/-- The call has not ended, and its terminal event has not come. -/
def Phase.active : Phase → Bool
  | .fetching => true
  | .reading _ settled => !settled
  | .done => false

/-- The terminal event has come, and the stream has not ended. -/
def Phase.settled : Phase → Bool
  | .reading _ settled => settled
  | _ => false

/-- An event or a failure. -/
def StreamInput.brings : StreamInput R → Bool
  | .event _ _ => true
  | .throws _ => true
  | _ => false

/-- What one input does to a call: an active call that stays active leaves
the flag alone, and an inactive one stays inactive and writes only if it has
settled and is brought something. -/
structure Reacts (phase : Phase) (input : StreamInput R) (next : Phase)
    (update : StoreUpdate R) : Prop where
  keeps_running : next.active = true → ∀ f ∈ update, ∀ store, (f store).running = store.running
  stays_inactive : phase.active = false → next.active = false
  silent : phase.active = false → update = none ∨ (phase.settled = true ∧ input.brings = true)

theorem handle_reacts {checked settled : Bool} {now : Int} {event : StreamEvent R} :
    Reacts (.reading checked settled) (.event now event) (handle settled now event.kind).1
      (handle settled now event.kind).2 := by
  cases event.kind with
  | node_ok node_id results cached =>
      cases cached <;> cases settled <;> constructor <;>
        simp [handle, Phase.active, Phase.settled, StreamInput.brings,
          ExecutionStore.setNodeCached, ExecutionStore.setNodeResult]
  | _ =>
      cases settled <;> constructor <;>
        simp [handle, fail, Phase.active, Phase.settled, StreamInput.brings,
          ExecutionStore.setNodeStart, ExecutionStore.setNodeError, ExecutionStore.setNodeSkipped]

/-- A call that ends is not active. -/
theorem done_reacts {phase : Phase} {input : StreamInput R} {update : StoreUpdate R}
    (h : phase.active = false →
      update = none ∨ (phase.settled = true ∧ input.brings = true)) :
    Reacts phase input .done update :=
  ⟨nofun, fun _ => rfl, h⟩

theorem same_reacts {phase : Phase} {input : StreamInput R} : Reacts phase input phase none :=
  ⟨fun _ => nofun, id, fun _ => .inl rfl⟩

theorem react_reacts (phase : Phase) (input : StreamInput R) :
    Reacts phase input (react phase input).1 (react phase input).2 := by
  cases phase with
  | fetching =>
      cases input with
      | answer answer =>
          cases answer with
          | refused message => exact done_reacts nofun
          | no_body => exact done_reacts nofun
          | stream => exact ⟨fun _ => nofun, nofun, nofun⟩
      | throws message => exact done_reacts nofun
      | event now event => exact same_reacts
      | close => exact same_reacts
  | reading checked settled =>
      cases input with
      | answer answer => exact same_reacts
      | event now event =>
          rw [react]
          cases if checked then none
              else event.payload_version.filter (· ≠ EXPECTED_PAYLOAD_VERSION) with
          | none => exact handle_reacts
          | some version =>
              refine done_reacts fun hsettled => .inr ⟨?_, rfl⟩
              simpa [Phase.active, Phase.settled] using hsettled
      | close =>
          refine done_reacts fun hsettled => .inl ?_
          -- after the end of the run a close is no failure
          have hset : settled = true := by simpa [Phase.active] using hsettled
          exact if_pos hset
      | throws message =>
          refine done_reacts fun hsettled => .inr ⟨?_, rfl⟩
          simpa [Phase.active, Phase.settled] using hsettled
  | done => cases input <;> exact same_reacts

/-! ## One run at a time -/

/-- One run at a time is under way, and whatever a run wrote it wrote before
another was started and before the graph was replaced. -/
structure SingleStream (s : CanvasState G R) : Prop where
  one : ∀ (i j : Nat) (r q : RunStream G), s.runs[i]? = some r → s.runs[j]? = some q →
    r.phase.active = true → q.phase.active = true → i = j
  own : ∀ w ∈ s.writes, w.run = w.latest ∧ w.origin = w.graph

/-- The graph is not replaced under an unsettled run, and a settled stream
brings nothing more once another run was started or the graph replaced. -/
def Careful (s : CanvasState G R) : CanvasStep G R → Prop
  | .replace _ => ∀ r ∈ s.runs, r.phase.active = false
  | .input run input => ∀ r, s.runs[run]? = some r → r.phase.settled = true →
      input.brings = true → run = s.runs.length - 1 ∧ r.origin = s.replaced
  | _ => True

/-- What carries the law: an active run is the last one, it started on the
graph of the canvas, and the flag is up. -/
structure Guarded (s : CanvasState G R) : Prop where
  active : ∀ (i : Nat) (r : RunStream G), s.runs[i]? = some r → r.phase.active = true →
    s.exec.running = true ∧ i = s.runs.length - 1 ∧ r.origin = s.replaced
  own : ∀ w ∈ s.writes, w.run = w.latest ∧ w.origin = w.graph

theorem Guarded.single {s : CanvasState G R} (h : Guarded s) : SingleStream s := by
  refine ⟨fun i j r q hi hj hr hq => ?_, h.own⟩
  rw [(h.active i r hi hr).2.1, (h.active j q hj hq).2.1]

/-! ## What one step keeps -/

theorem Guarded.runGraph {s : CanvasState G R} (h : Guarded s) (options : RunGraphOptions) :
    Guarded (s.runGraph options) := by
  rw [CanvasState.runGraph]
  cases hrunning : s.exec.running with
  | true => exact h
  | false =>
      rw [if_neg Bool.false_ne_true]
      refine ⟨fun i r hi hr => ?_, h.own⟩
      by_cases hlt : i < s.runs.length
      · -- a run of before is not active while the flag is down
        rw [List.getElem?_append_left hlt] at hi
        have hflag := (h.active i r hi hr).1
        rw [hrunning] at hflag
        cases hflag
      · have hlast : i = s.runs.length := by
          have hbound := (List.getElem?_eq_some_iff.mp hi).1
          simp only [List.length_append, List.length_singleton] at hbound
          omega
        subst hlast
        rw [List.getElem?_concat_length] at hi
        cases hi
        refine ⟨rfl, ?_, rfl⟩
        rw [List.length_append]
        rfl

/-- No write is of another run or on another graph. -/
theorem Guarded.write_own {s : CanvasState G R} (h : Guarded s) {run origin : Nat}
    {update : StoreUpdate R}
    (hown : update = none ∨ (run = s.runs.length - 1 ∧ origin = s.replaced)) :
    ∀ w ∈ (s.write run origin update).writes, w.run = w.latest ∧ w.origin = w.graph := by
  cases update with
  | none => exact h.own
  | some f =>
      intro w hw
      rcases List.mem_append.mp hw with hw | hw
      · exact h.own w hw
      · rw [List.mem_singleton] at hw
        subst hw
        exact hown.resolve_left nofun

/-- A call that writes only as the last one, on its own graph. -/
theorem Guarded.proceed {s : CanvasState G R} (h : Guarded s) {run : Nat} {r : RunStream G}
    {input : StreamInput R} {phase : Phase} {update : StoreUpdate R} (hrun : s.runs[run]? = some r)
    (hreacts : Reacts r.phase input phase update)
    (hown : update = none ∨ (run = s.runs.length - 1 ∧ r.origin = s.replaced)) :
    Guarded (s.proceed run r phase update) := by
  refine ⟨fun i q hi hq => ?_, h.write_own hown⟩
  have hlength : (s.proceed run r phase update).runs.length = s.runs.length := List.length_set ..
  have hreplaced : (s.proceed run r phase update).replaced = s.replaced := by
    cases update <;> rfl
  rw [hlength, hreplaced]
  by_cases hsame : i = run
  · subst hsame
    have hset := List.getElem?_set_self (a := { r with phase })
      (List.getElem?_eq_some_iff.mp hrun).1
    cases hset.symm.trans hi
    have hactive : r.phase.active = true := by
      by_contra hinactive
      rw [hreacts.stays_inactive (Bool.eq_false_iff.mpr hinactive)] at hq
      cases hq
    obtain ⟨hflag, hlast, horigin⟩ := h.active i r hrun hactive
    refine ⟨?_, hlast, horigin⟩
    cases update with
    | none => exact hflag
    | some f => exact (hreacts.keeps_running hq f rfl s.exec).trans hflag
  · have hi : s.runs[i]? = some q := (List.getElem?_set_ne (Ne.symm hsame)).symm.trans hi
    obtain ⟨hflag, hlast, horigin⟩ := h.active i q hi hq
    cases update with
    | none => exact ⟨hflag, hlast, horigin⟩
    | some f =>
        -- a run that writes is the last one, and so is an active one
        obtain ⟨hrunlast, -⟩ := hown.resolve_left nofun
        exact absurd (hlast.trans hrunlast.symm) hsame

theorem Guarded.input {s : CanvasState G R} (h : Guarded s) {run : Nat} {input : StreamInput R}
    (hcareful : Careful s (.input run input)) : Guarded (s.input run input) := by
  rw [CanvasState.input]
  cases hrun : s.runs[run]? with
  | none => exact h
  | some r =>
      have hreacts := react_reacts r.phase input
      refine h.proceed hrun hreacts ?_
      cases hactive : r.phase.active with
      | true => exact .inr (h.active run r hrun hactive).2
      | false =>
          rcases hreacts.silent hactive with hnone | ⟨hsettled, hbrings⟩
          · exact .inl hnone
          · exact .inr (hcareful r hrun hsettled hbrings)

/-- With no active run the graph is replaced at leisure. -/
theorem Guarded.replace {s : CanvasState G R} (h : Guarded s)
    (hidle : ∀ r ∈ s.runs, r.phase.active = false) (graph : G) : Guarded (s.replace graph) := by
  refine ⟨fun i r hi hr => ?_, h.own⟩
  rw [hidle r (List.mem_of_getElem? hi)] at hr
  cases hr

theorem Guarded.step {s : CanvasState G R} {a : CanvasStep G R} (h : Guarded s)
    (hcareful : Careful s a) : Guarded (canvasStep s a) := by
  cases a with
  | runGraph options => exact h.runGraph options
  | input run input => exact h.input hcareful
  | replace graph => exact h.replace hcareful graph
  | edit graph => exact ⟨h.active, h.own⟩

/-! ## Every run -/

/-- A canvas on which nothing was run yet. -/
def fresh (graph : G) : CanvasState G R := { graph }

/-- However calls, events, failures and replacements interleave, if no graph
is replaced under an unsettled run and no settled stream brings more to
another run or graph, then one run at a time writes to the store, and to that
of the graph it started on. -/
theorem single_stream_of_careful (graph : G) (l : List (CanvasStep G R))
    (hcareful : Runs.AllSteps canvasStep Careful (fresh graph) l) :
    SingleStream (Runs.run canvasStep (fresh graph) l) := by
  have hstart : Guarded (fresh graph : CanvasState G R) := ⟨by simp [fresh], by simp [fresh]⟩
  exact (hcareful.invariant hstart fun t a ht ha => ht.step ha).single

/-- Run, and once settled replace the graph and run again. -/
def two_runs : List (CanvasStep Nat Nat) :=
  [.runGraph {}, .input 0 (.answer .stream), .input 0 (.event 0 ⟨some 2, .node_ok "n" 7 false⟩),
    .input 0 (.event 1 ⟨some 2, .run_complete⟩), .replace 1, .runGraph {}, .input 0 .close,
    .input 1 (.throws "offline")]

/-- The second run fails, and the canvas has had one run at a time. -/
theorem two_runs_single : SingleStream (Runs.run canvasStep (fresh 0) two_runs) := by
  refine single_stream_of_careful 0 two_runs ?_
  simp only [two_runs, Runs.AllSteps.cons_iff]
  refine ⟨trivial, ?_, ?_, ?_, ?_, trivial, ?_, ?_, Runs.AllSteps.nil⟩
  · exact fun _ _ _ => nofun
  · rintro r ⟨⟩ hsettled
    cases hsettled
  · rintro r ⟨⟩ hsettled
    cases hsettled
  · rintro r hr
    cases List.mem_singleton.mp hr
    rfl
  · exact fun _ _ _ => nofun
  · rintro r ⟨⟩ hsettled
    cases hsettled

/-- A graph loaded while a run streams: the next result is recorded on it. -/
def loaded_under_run : List (CanvasStep Nat Nat) :=
  [.runGraph {}, .input 0 (.answer .stream), .replace 1,
    .input 0 (.event 0 ⟨some 2, .node_ok "n" 7 false⟩)]

theorem late_result_is_recorded :
    ¬ ∀ l : List (CanvasStep Nat Nat), SingleStream (Runs.run canvasStep (fresh 0) l) := by
  intro h
  have hown := (h loaded_under_run).own ⟨0, 0, 0, 1⟩ (by decide)
  exact absurd hown.2 (by decide)

end EmergentFlow.RunGraph
