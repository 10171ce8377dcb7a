import EmergentFlow.Codegen.Validation
import EmergentFlow.Lib.Runs
import EmergentFlow.Ui.GraphStore

/-!
# Ui — LiveValidation

The effect that keeps the verdict of the server on the graph of the canvas
(`ui/src/store/useLiveValidation.ts`, `ui/src/store/validationStore.ts`). Each run of the effect
cancels what the run before it began, and posts the graph of its own time when its timer
ends. It runs again after an action that hands out new nodes or new edges; the params of
the flow are neither, though they are part of what is posted.

The graph of the last run of the effect is what the store ends up with the verdict of
(`Inv`). So the store is current as long as the actions without a run leave
the verdict alone (`Quiet`).
-/

namespace EmergentFlow.LiveValidation

open Canvas

variable {Sub : Type}

/-! ## The store of the verdict -/

inductive Status where
  | idle
  | validating
  | ok
  | error
  deriving DecidableEq

structure ValidationStore where
  status : Status := .idle
  diagnostics : List Diagnostic := []
  edgeCompatibility : Dict String (Option Bool) := .empty
  error : Option String := none

namespace ValidationStore

variable (s : ValidationStore)

def setValidating : ValidationStore := { s with status := .validating }

def setResult (d : Diagnostics) : ValidationStore where
  diagnostics := d.diagnostics
  edgeCompatibility := d.edge_compatibility
  status := .ok

def setError (message : String) : ValidationStore :=
  { s with status := .error, error := some message }

def clear : ValidationStore := {}

/-- The verdict that the store holds. -/
def verdict : Diagnostics where
  diagnostics := s.diagnostics
  edge_compatibility := s.edgeCompatibility

end ValidationStore

/-! ## The effect -/

/-- What the server says of a graph: a verdict, or the text of an error. -/
abbrev Server (Sub : Type) := IRGraph Sub → Except String Diagnostics

/-- A request under way, and whether its run of the effect has been cancelled. -/
structure Flight (Sub : Type) where
  graph : IRGraph Sub
  cancelled : Bool := false

structure Live (Sub : Type) where
  store : GraphStore Sub
  view : ValidationStore := {}
  timer : Option (IRGraph Sub) := none
  flights : List (Flight Sub) := []

namespace Live

variable (st : Live Sub)

def graph : IRGraph Sub := toIR st.store.toCanvasModel

/-- What the effect returns to be called before its next run. -/
def cleanup : Live Sub :=
  { st with timer := none, flights := st.flights.map ({ · with cancelled := true }) }

def effect : Live Sub :=
  if (st.graph.nodes.getD .empty).keys = [] then { st.cleanup with view := .clear }
  else { st.cleanup with view := st.view.setValidating, timer := some st.graph }

/-- How a request ends: the server has answered, or something else came back. -/
inductive Reply where
  | answered
  | failed (message : String)

def received (server : Server Sub) (graph : IRGraph Sub) (reply : Reply) : ValidationStore :=
  match reply with
  | .failed message => st.view.setError message
  | .answered =>
      match server graph with
      | .ok d => .setResult d
      | .error message => st.view.setError message

end Live

/-- The actions that set nodes or edges, when they set anything. -/
def sets_graph : Canvas.Action Sub → Bool
  | .pushHistory _ | .endNodeDrag | .setName _ | .addGraphParam | .setGraphParamValue .. |
    .setGraphParamType .. | .setGraphParamDescription .. | .removeGraphParam _ |
    .setGroupMeta .. => false
  | _ => true

/-- The actions that call `clearDerivedStores`. -/
def clears_derived : Canvas.Action Sub → Bool
  | .loadIR .. | .loadModel .. | .reset => true
  | _ => false

inductive Event (Sub : Type) where
  /-- an action, and whether the effect runs again after it -/
  | act (action : Canvas.Action Sub) (rerun : Bool)
  /-- the timer ends -/
  | timeout
  /-- the request at this place ends -/
  | ended (i : Nat) (reply : Live.Reply)

def step (host : Host Sub) (server : Server Sub) (st : Live Sub) : Event Sub → Live Sub
  | .act action rerun =>
      let next := { st with
        store := act host st.store action
        view := if clears_derived action then .clear else st.view }
      if rerun then next.effect else next
  | .timeout =>
      match st.timer with
      | none => st
      | some graph => { st with timer := none, flights := st.flights ++ [{ graph }] }
  | .ended i reply =>
      match st.flights[i]? with
      | none => st
      | some flight =>
          let rest := { st with flights := st.flights.eraseIdx i }
          if flight.cancelled then rest
          else { rest with view := st.received server flight.graph reply }

/-- The canvas when it is first shown. -/
def mounted (store : GraphStore Sub) : Live Sub := Live.effect { store }

/-- The effect runs again exactly when it is handed new nodes or edges. An action that sets
them hands out new ones, unless it found nothing to do and left the canvas as it was. -/
def Legal (host : Host Sub) (st : Live Sub) : Event Sub → Prop
  | .act action rerun =>
      (rerun = true → sets_graph action = true) ∧
        (rerun = false → sets_graph action = false ∨
          ((act host st.store action).toCanvasModel = st.store.toCanvasModel ∧
            clears_derived action = false))
  | _ => True

/-- An action that sets neither nodes nor edges leaves the verdict of the server alone. -/
def Quiet (host : Host Sub) (server : Server Sub) (st : Live Sub) : Event Sub → Prop
  | .act action _ => sets_graph action = false →
      server (toIR (act host st.store action).toCanvasModel) = server st.graph
  | _ => True

/-- No timer runs and no request that still counts is under way. -/
def Settled (st : Live Sub) : Prop :=
  st.timer = none ∧ ∀ flight ∈ st.flights, flight.cancelled = true

/-! ## Actions without a run of the effect -/

theorem clears_derived_of_not_sets {action : Canvas.Action Sub} (h : sets_graph action = false) :
    clears_derived action = false := by
  cases action <;> first | rfl | cases h

theorem nodes_of_not_sets (host : Host Sub) (s : GraphStore Sub) {action : Canvas.Action Sub}
    (h : sets_graph action = false) : (act host s action).nodes = s.nodes := by
  have hupdate : ∀ txn name f, (s.updateGraphParam txn name f).nodes = s.nodes := by
    intro txn name f
    rw [GraphStore.updateGraphParam]
    split <;> rfl
  cases action with
  | pushHistory | endNodeDrag | setName | addGraphParam => rfl
  | setGraphParamValue name value => exact hupdate ..
  | setGraphParamType name typeToken => exact hupdate ..
  | setGraphParamDescription name description => exact hupdate ..
  | removeGraphParam name =>
      show (s.removeGraphParam name).nodes = s.nodes
      rw [GraphStore.removeGraphParam]
      split <;> rfl
  | setGroupMeta groupId patch =>
      show (s.setGroupMeta groupId patch).nodes = s.nodes
      rw [GraphStore.setGroupMeta, GraphStore.setModel]
      split <;> split <;> rfl
  | _ => cases h

/-! ## The invariant -/

/-- What is under way and what has come back belong to one graph, which has the verdict of
the present one. -/
structure Holds (server : Server Sub) (st : Live Sub) (graph : IRGraph Sub) : Prop where
  current : server graph = server st.graph
  timer : ∀ g, st.timer = some g → g = graph
  flights : ∀ flight ∈ st.flights, flight.cancelled = false → flight.graph = graph
  ok : st.view.status = .ok → server graph = .ok st.view.verdict
  validating : st.view.status = .validating → ¬ Settled st
  idle : st.view.status = .idle → st.store.nodes.keys = [] ∧ st.view = .clear

def Inv (server : Server Sub) (st : Live Sub) : Prop := ∃ graph, Holds server st graph

theorem keys_graph (st : Live Sub) : (st.graph.nodes.getD .empty).keys = st.store.nodes.keys :=
  Dict.keys_mapValues (fun _ node => nodeToIR node) st.store.nodes

/-- After a run of the effect only the present graph counts. -/
theorem inv_effect (server : Server Sub) (st : Live Sub) : Inv server st.effect := by
  refine ⟨st.graph, ?_⟩
  have hflights : ∀ flight ∈ st.cleanup.flights, flight.cancelled = false →
      flight.graph = st.graph := by
    intro flight hflight hlive
    obtain ⟨_, -, rfl⟩ := List.mem_map.mp hflight
    cases hlive
  rw [Live.effect, keys_graph]
  split
  next hempty => exact ⟨rfl, nofun, hflights, nofun, nofun, fun _ => ⟨hempty, rfl⟩⟩
  next =>
    exact ⟨rfl, fun g hg => (Option.some.inj hg).symm, hflights, nofun,
      fun _ hsettled => (nomatch hsettled.1), nofun⟩

/-- What a request that counts leaves in the store. -/
theorem received_status (st : Live Sub) (server : Server Sub) (graph : IRGraph Sub)
    (reply : Live.Reply) :
    ((st.received server graph reply).status ≠ .validating ∧
        (st.received server graph reply).status ≠ .idle) ∧
      ((st.received server graph reply).status = .ok →
        server graph = .ok (st.received server graph reply).verdict) := by
  cases reply with
  | failed message => exact ⟨⟨nofun, nofun⟩, nofun⟩
  | answered =>
      rw [Live.received]
      cases hserver : server graph with
      | error message => exact ⟨⟨nofun, nofun⟩, nofun⟩
      | ok d => exact ⟨⟨nofun, nofun⟩, fun _ => rfl⟩

/-- An action without a run of the effect, when the server says of the canvas what it said
before. -/
theorem Holds.act {host : Host Sub} {server : Server Sub} {st : Live Sub} {graph : IRGraph Sub}
    (h : Holds server st graph) {action : Canvas.Action Sub}
    (hclears : clears_derived action = false)
    (hnodes : (act host st.store action).nodes = st.store.nodes)
    (hserver : server (toIR (act host st.store action).toCanvasModel) = server st.graph) :
    Holds server (step host server st (.act action false)) graph := by
  rw [step]
  simp only [hclears, Bool.false_eq_true, if_false]
  refine ⟨h.current.trans hserver.symm, h.timer, h.flights, h.ok, h.validating, ?_⟩
  rw [hnodes]
  exact h.idle

theorem Holds.timeout {host : Host Sub} {server : Server Sub} {st : Live Sub}
    {graph : IRGraph Sub} (h : Holds server st graph) :
    Holds server (step host server st .timeout) graph := by
  rw [step]
  cases htimer : st.timer with
  | none => exact h
  | some g =>
      have hposted : ({ graph := g } : Flight Sub) ∈ st.flights ++ [{ graph := g }] :=
        List.mem_append_right _ List.mem_cons_self
      refine ⟨h.current, nofun, fun flight hflight hlive => ?_, h.ok,
        fun _ hsettled => (nomatch hsettled.2 _ hposted), h.idle⟩
      rcases List.mem_append.mp hflight with hflight | hflight
      · exact h.flights flight hflight hlive
      · rw [List.mem_singleton.mp hflight]
        exact h.timer g htimer

/-- A request that does not count settles nothing when it ends. -/
theorem settled_of_eraseIdx {st : Live Sub} {i : Nat} {flight : Flight Sub}
    (hflight : st.flights[i]? = some flight) (hcancelled : flight.cancelled = true)
    (h : Settled { st with flights := st.flights.eraseIdx i }) : Settled st := by
  refine ⟨h.1, fun f hf => ?_⟩
  obtain ⟨j, hj⟩ := List.getElem?_of_mem hf
  by_cases hij : j = i
  · rw [hij] at hj
    cases hflight.symm.trans hj
    exact hcancelled
  · exact h.2 f (List.mem_eraseIdx_iff_getElem?.mpr ⟨j, hij, hj⟩)

theorem Holds.ended {host : Host Sub} {server : Server Sub} {st : Live Sub}
    {graph : IRGraph Sub} (h : Holds server st graph) (i : Nat) (reply : Live.Reply) :
    Holds server (step host server st (.ended i reply)) graph := by
  rw [step]
  cases hflight : st.flights[i]? with
  | none => exact h
  | some flight =>
      have hrest : ∀ f ∈ st.flights.eraseIdx i, f.cancelled = false → f.graph = graph :=
        fun f hf => h.flights f (List.mem_of_mem_eraseIdx hf)
      cases hlive : flight.cancelled with
      | true =>
          simp only [hlive, if_true]
          refine ⟨h.current, h.timer, hrest, h.ok, fun hstatus hsettled => ?_, h.idle⟩
          exact h.validating hstatus (settled_of_eraseIdx hflight hlive hsettled)
      | false =>
          have hgraph := h.flights flight (List.mem_of_getElem? hflight) hlive
          have hview := received_status st server flight.graph reply
          simp only [hlive, Bool.false_eq_true, if_false]
          refine ⟨h.current, h.timer, hrest, ?_, fun hstatus => ?_, fun hstatus => ?_⟩
          · rw [← hgraph]
            exact hview.2
          · exact absurd hstatus hview.1.1
          · exact absurd hstatus hview.1.2

theorem Inv.step {host : Host Sub} {server : Server Sub} {st : Live Sub} (h : Inv server st)
    {event : Event Sub} (hlegal : Legal host st event) (hquiet : Quiet host server st event) :
    Inv server (step host server st event) := by
  obtain ⟨graph, h⟩ := h
  cases event with
  | act action rerun =>
      cases rerun with
      | true => exact inv_effect server _
      | false =>
          refine ⟨graph, ?_⟩
          rcases hlegal.2 rfl with hsets | ⟨hsame, hclears⟩
          · exact h.act (clears_derived_of_not_sets hsets)
              (nodes_of_not_sets host st.store hsets) (hquiet hsets)
          · have hnodes : (act host st.store action).nodes = st.store.nodes := by rw [hsame]
            have hserver : server (toIR (act host st.store action).toCanvasModel) =
                server st.graph := by
              rw [hsame]
              rfl
            exact h.act hclears hnodes hserver
  | timeout => exact ⟨graph, h.timeout⟩
  | ended i reply => exact ⟨graph, h.ended i reply⟩

/-- In every run of canvas, timer and server, in whatever order requests end: once the effect
has settled, the last request has failed, or the verdict on the present graph is held, or
the graph is empty and nothing is. -/
theorem live_validation (host : Host Sub) (server : Server Sub) (store : GraphStore Sub)
    (events : List (Event Sub))
    (hlegal : Runs.AllSteps (step host server) (Legal host) (mounted store) events)
    (hquiet : Runs.AllSteps (step host server) (Quiet host server) (mounted store) events) :
    let st := Runs.run (step host server) (mounted store) events
    Settled st → st.view.status = .error ∨
      (st.view.status = .ok ∧ server st.graph = .ok st.view.verdict) ∨
      (st.view.status = .idle ∧ st.store.nodes.keys = [] ∧ st.view = .clear) := by
  intro st hsettled
  have hsteps : Runs.AllSteps (step host server)
      (fun st event => Legal host st event ∧ Quiet host server st event) (mounted store) events :=
    fun pre event post h => ⟨hlegal pre event post h, hquiet pre event post h⟩
  obtain ⟨graph, h⟩ : Inv server st := hsteps.invariant (inv_effect server _)
    fun st event hst hevent => hst.step hevent.1 hevent.2
  cases hstatus : st.view.status with
  | idle => exact .inr (.inr ⟨rfl, h.idle hstatus⟩)
  | validating => exact absurd hsettled (h.validating hstatus)
  | ok => exact .inr (.inl ⟨rfl, h.current.symm.trans (h.ok hstatus)⟩)
  | error => exact .inl rfl

/-! ## Removing a param of the flow -/

/-- `/validate`, given how the server puts what `validate` raises. -/
def validate_graph (v : Validator) (text : CodegenError → String) (n : Nat) :
    Server (Nested n) :=
  fun graph => (v.validate n graph.filled).mapError text

/-- One node type, with a param that may name a param of the flow. -/
def csv_validator : Validator where
  registry type :=
    if type = "load_csv" then
      some { type, params := [{ name := "path", type_token := "str", ref_supported := true }] }
    else none
  types := ⟨.empty⟩
  infer_types _ _ _ := .empty
  validity _ _ := .ok []
  repr s := "'" ++ s ++ "'"

def still_host : Host (Nested 1) where
  layered _ _ _ := ⟨0, 0⟩
  expanded _ _ _ := ⟨0, 0⟩
  separated _ _ := ⟨0, 0⟩
  inner _ := ({ nodes := .empty, edges := .empty, params := .empty } : Graph (Nested 0))
  catalog := []
  serializeBlocks _ := ""

def csv_node : NodeModel (Nested 1) where
  id := "n1"
  type := "load_csv"
  paradigm := .FUNCTIONAL
  params := [{ name := "path", typeToken := "str", value := .none, ref := some (some "param1") }]
  ports := []
  position := ⟨0, 0⟩

def csv_store : GraphStore (Nested 1) where
  paradigm := .FUNCTIONAL
  nodes := .ofList [("n1", csv_node)]
  edges := .empty
  params := some (.ofList [("param1", { name := "param1", typeToken := "str", value := .none })])

def csv_server : Server (Nested 1) := validate_graph csv_validator (fun _ => "") 1

/-- A node is moved while the first request is under way. -/
def moved_meanwhile : List (Event (Nested 1)) :=
  [.timeout, .act (.moveNode "n1" ⟨40, 0⟩) true, .ended 0 .answered, .timeout,
    .ended 0 .answered]

theorem live_validation_moved :
    let st := Runs.run (step still_host csv_server) (mounted csv_store) moved_meanwhile
    Settled st → st.view.status = .error ∨
      (st.view.status = .ok ∧ csv_server st.graph = .ok st.view.verdict) ∨
      (st.view.status = .idle ∧ st.store.nodes.keys = [] ∧ st.view = .clear) := by
  refine live_validation still_host csv_server csv_store moved_meanwhile ?_ ?_
  · simp only [moved_meanwhile, Runs.AllSteps.cons_iff, Legal]
    exact ⟨trivial, ⟨fun _ => rfl, nofun⟩, trivial, trivial, trivial, .nil⟩
  · simp only [moved_meanwhile, Runs.AllSteps.cons_iff, Quiet]
    exact ⟨trivial, nofun, trivial, trivial, trivial, .nil⟩

/-- The run in which the param that a node refers to is removed. -/
def param_removed : List (Event (Nested 1)) :=
  [.timeout, .ended 0 .answered, .act (.removeGraphParam "param1") false]

theorem removal_unnoticed :
    ¬ ∀ (store : GraphStore (Nested 1)) (events : List (Event (Nested 1))),
      Runs.AllSteps (step still_host csv_server) (Legal still_host) (mounted store) events →
      let st := Runs.run (step still_host csv_server) (mounted store) events
      Settled st → st.view.status = .ok → csv_server st.graph = .ok st.view.verdict := by
  intro h
  have hlegal : Runs.AllSteps (step still_host csv_server) (Legal still_host)
      (mounted csv_store) param_removed := by
    simp only [param_removed, Runs.AllSteps.cons_iff, Legal]
    exact ⟨trivial, trivial, ⟨nofun, fun _ => .inl rfl⟩, .nil⟩
  have hend := h csv_store param_removed hlegal ⟨rfl, nofun⟩ rfl
  have hcount := congrArg (fun r => r.toOption.map (·.diagnostics.length)) hend
  exact absurd hcount (by decide +kernel)

end EmergentFlow.LiveValidation
