import EmergentFlow.Codegen.Executor
import EmergentFlow.Lib.LossyStore
import EmergentFlow.Server.DiskStore

/-!
# Server — Stream

The server's node-by-node walk of a functional graph
(`_execute_functional_stream` in `server/service.py`): a generator of
lifecycle events. A node whose inputs are missing is skipped, a node that
raises is reported, and the walk goes on; cacheable nodes are looked up in
the execution cache by a hash of their type, params and upstream hashes,
and every result is also kept in the artifact store for partial runs.

An exception outside the `try` around a node ends the generator early, and so
does one inside that is no `Exception`.
The time a node took is left out of the events.
-/

namespace EmergentFlow

variable {Sub V C ε : Type}

/-! ## The environment -/

/-- What the content hash of a node is made of besides the node: the
canonical JSON text of its params, the digest, the version of the package. -/
structure Hashing where
  dumps : Dict String ParamValue → String
  sha256 : String → String
  version : String

/-- The server a run takes place in: its node types, the gate, the clients
it builds, and its two stores. -/
structure Server (Sub V C ε : Type) where
  runtime : Runtime V
  gate : Graph Sub → Bool
  call : Behaviour Sub V C ε
  /-- An instance of `Exception`, unlike `SystemExit` and `KeyboardInterrupt`. -/
  is_exception : ε → Bool
  gateway : C
  warehouse : C
  hashing : Hashing
  cache : LossyStore String (Dict String V) (String × String)
  artifacts : LossyStore String (Dict String V) (String × String)

/-- `_execute_node`: only the seam the node declares is built. -/
def Server.execute_node (sv : Server Sub V C ε) (definition : NodeDefinition) (node : Node Sub)
    (inputs : Dict String V) : Except (Failure ε) (Dict String V) :=
  match definition.required_client_kinds with
  | [] => definition_execute sv.call node inputs none
  | [kind] =>
      let clients : Clients C := {
        llm := if kind = .LLM then some sv.gateway else none
        warehouse := if kind = .WAREHOUSE then some sv.warehouse else none }
      definition_execute sv.call node inputs (clients.for_kind kind)
  | _ => .error (.many_clients node.type)

/-! ## Hashes -/

/-- `_tagged_hash`. -/
def tagged_hash (port_name : String) (upstream_hash : Option String) : Option String :=
  upstream_hash.map fun h => port_name ++ "=" ++ h

/-- The text that `_node_hash` digests. -/
def Hashing.payload (hs : Hashing) (node : Node Sub) (upstream_hashes : List String) : String :=
  node.type ++ hs.dumps node.param_values ++ String.join upstream_hashes ++ hs.version

/-- `_node_hash`. -/
def Hashing.node_hash (hs : Hashing) (node : Node Sub) (upstream_hashes : List String) : String :=
  hs.sha256 (hs.payload node upstream_hashes)

/-- The key of a node in the cache: none unless the node is cacheable and
every upstream hash is defined. -/
def Hashing.cache_hash (hs : Hashing) (definition : NodeDefinition) (node : Node Sub)
    (upstream_hashes : List (Option String)) : Option String :=
  if definition.cacheable && upstream_hashes.all (·.isSome) then
    some (hs.node_hash node (upstream_hashes.filterMap id))
  else none

/-! ## Events and state -/

/-- The status of a node that has been visited. -/
inductive NodeStatus where
  | OK
  | ERROR
  | SKIPPED
  | CACHED
  deriving DecidableEq, Repr

/-- Why a node was skipped: the state of the first source without a value. -/
inductive SkipReason where
  | errored
  | was_skipped
  | not_run
  deriving DecidableEq, Repr

/-- `_NodeEvent`. -/
inductive NodeEvent (V ε : Type) where
  | start (node_id label : String) (current total : Nat)
  | ok (node_id label : String) (results : Dict String V) (cached : Bool)
  | error (node_id label : String) (error : Failure ε)
  | skip (node_id label : String) (reason : SkipReason)

/-- The node that an event ends. -/
def NodeEvent.terminal : NodeEvent V ε → Option String
  | .start .. => none
  | .ok id .. | .error id .. | .skip id .. => some id

/-- The node that an event is about. -/
def NodeEvent.node_id : NodeEvent V ε → String
  | .start id .. | .ok id .. | .error id .. | .skip id .. => id

/-- The tables of the walk, and the stores. -/
structure WalkState (sv : Server Sub V C ε) where
  node_status : Dict String NodeStatus := Dict.empty
  node_results : Results V := Dict.empty
  node_hashes : Dict String (Option String) := Dict.empty
  cache : sv.cache.State
  artifacts : sv.artifacts.State

/-! ## Binding inputs -/

/-- How the binding of a node's inputs stops. -/
inductive Stop where
  | skip (reason : SkipReason)
  | raise (failure : LookupFailure)

/-- `_resolve_upstream_value`; `none` is `_MISSING`. A source visited in
this run answers from the results, an unvisited one from its artifact. -/
def resolve_upstream_value (sv : Server Sub V C ε) (g : Graph Sub)
    (node_status : Dict String NodeStatus) (node_results : Results V) (src : PortRef) :
    Transaction sv.artifacts.State Stop (Option V) :=
  match node_status.get? src.node_id with
  | some .OK | some .CACHED => do
      let value ← Transaction.lift ((g.source_value node_results src).mapError .raise)
      pure (some value)
  -- a node outside the walk: what an earlier run left
  | none => do
      let port_name ← Transaction.lift ((g.source_port_name src).mapError .raise)
      let stored ← sv.artifacts.fetch (safe_key sv.hashing.sha256 src.node_id)
      pure (stored.bind (·.get? port_name))
  | some .ERROR | some .SKIPPED => pure none

/-- `_skip_reason`. -/
def skip_reason (node_status : Dict String NodeStatus) (src : PortRef) : SkipReason :=
  match node_status.get? src.node_id with
  | some .ERROR => .errored
  | some .SKIPPED => .was_skipped
  | _ => .not_run

/-- The inputs of a node bound so far, and the tagged upstream hashes. -/
structure Bound (V : Type) where
  inputs : Dict String V := Dict.empty
  upstream_hashes : List (Option String) := []

section Bind

variable {m : Type → Type} [Monad m] [MonadExcept Stop m]
  (rt : Runtime V) (w : WiringMap) (resolve : PortRef → m (Option V))
  (node_status : Dict String NodeStatus) (node_hashes : Dict String (Option String))

/-- The value and the tagged hash of one source, or the skip. -/
def bind_source (port : Port) (src : PortRef) : m (V × Option String) := do
  match ← resolve src with
  | none => throw (.skip (skip_reason node_status src))
  | some value => pure (value, tagged_hash port.name (node_hashes.get? src.node_id).join)

/-- The sources of a port that takes many, in order, up to the first
without a value. -/
def bind_sources (port : Port) : List PortRef → m (List (V × Option String))
  | [] => pure []
  | src :: rest => do
      let bound ← bind_source resolve node_status node_hashes port src
      let bounds ← bind_sources port rest
      pure (bound :: bounds)

/-- One more IN port bound. -/
def bind_port (node : Node Sub) (bound : Bound V) (port : Port) : m (Bound V) :=
  match w.upstream ⟨node.id, port.id⟩ with
  | none => throw (.raise (.in_port node.id port.id))
  | some sources =>
      match port.cardinality with
      | .MANY => do
          let bounds ← bind_sources resolve node_status node_hashes port sources
          pure {
            inputs := bound.inputs.set port.name (rt.list_value (bounds.map Prod.fst))
            upstream_hashes := bound.upstream_hashes ++ bounds.map Prod.snd }
      | .ONE =>
          match sources with
          | [] => pure { bound with inputs := bound.inputs.set port.name rt.none_value }
          | [src] => do
              let (value, hash) ← bind_source resolve node_status node_hashes port src
              pure {
                inputs := bound.inputs.set port.name value
                upstream_hashes := bound.upstream_hashes ++ [hash] }
          | _ => throw (.raise (.source_count node.id port.name sources.length))

/-- All IN ports of a node bound, in declared order. -/
def bind_ports (node : Node Sub) : Bound V → List Port → m (Bound V)
  | bound, [] => pure bound
  | bound, port :: rest => do
      let bound ← bind_port rt w resolve node_status node_hashes node bound port
      bind_ports node bound rest

end Bind

/-! ## One node -/

variable {sv : Server Sub V C ε}

/-- The events of one node or of a walk, the state after it, and the
failure that ended the generator, with the node it was visiting. -/
structure Trace (sv : Server Sub V C ε) where
  events : List (NodeEvent V ε)
  state : WalkState sv
  escaped : Option (String × Failure ε)

/-- The binding of a node's inputs in this state. -/
def WalkState.bind (st : WalkState sv) (g : Graph Sub) (w : WiringMap) (node : Node Sub) :
    Transaction sv.artifacts.State Stop (Bound V) :=
  bind_ports sv.runtime w (resolve_upstream_value sv g st.node_status st.node_results)
    st.node_status st.node_hashes node {} node.in_ports

/-- What the walk records for a node that has results. -/
def WalkState.record (st : WalkState sv) (id label : String) (outputs : Dict String V)
    (hash : Option String) (cached : Bool) : WalkState sv :=
  { st with
    node_results := st.node_results.set id outputs
    node_status := st.node_status.set id (if cached then .CACHED else .OK)
    node_hashes := st.node_hashes.set id hash
    artifacts := sv.artifacts.put st.artifacts (safe_key sv.hashing.sha256 id) outputs (id, label) }

/-- What the walk records for a node that raised. -/
def WalkState.fail (st : WalkState sv) (id : String) : WalkState sv :=
  { st with
    node_status := st.node_status.set id .ERROR
    node_hashes := st.node_hashes.set id none }

/-- The lookup of a node in the cache, if it has a key. -/
def WalkState.lookup (st : WalkState sv) (hash : Option String) :
    Option (Dict String V) × WalkState sv :=
  match hash with
  | none => (none, st)
  | some key => ((sv.cache.get st.cache key).1, { st with cache := (sv.cache.get st.cache key).2 })

/-- The write of a fresh result to the cache, if the node has a key. -/
def WalkState.store (st : WalkState sv) (hash : Option String) (outputs : Dict String V)
    (note : String × String) : WalkState sv :=
  match hash with
  | none => st
  | some key => { st with cache := sv.cache.put st.cache key outputs note }

/-- `except Exception`. -/
def Server.catches (sv : Server Sub V C ε) : Failure ε → Bool
  | .raised e => sv.is_exception e
  | _ => true

/-- The end of the `try` when the node was executed: the event, or the
exception that is let through. -/
def conclude (st : WalkState sv) (node : Node Sub) (id : String) (hash : Option String) :
    Except (Failure ε) (Dict String V) → Except (Failure ε) (NodeEvent V ε) × WalkState sv
  | .error e =>
      if sv.catches e then (.ok (.error id (node.label.getD "") e), st.fail id) else (.error e, st)
  | .ok outputs =>
      let label := node.label.getD ""
      (.ok (.ok id label outputs false),
        (st.store hash outputs (node.id, label)).record id label outputs hash false)

/-- The `try` around a node whose inputs are bound. -/
def attempt (st : WalkState sv) (node : Node Sub) (id : String) (bound : Bound V) :
    Except (Failure ε) (NodeEvent V ε) × WalkState sv :=
  let label := node.label.getD ""
  match sv.runtime.registry node.type with
  | none => (.ok (.error id label (.unregistered node.type)), st.fail id)
  | some definition =>
      let hash := sv.hashing.cache_hash definition node bound.upstream_hashes
      match st.lookup hash with
      | (some outputs, st) =>
          (.ok (.ok id label outputs true), st.record id label outputs hash true)
      | (none, st) =>
          conclude st node id hash (sv.execute_node definition node bound.inputs)

/-- The body of the loop: the `index`-th of `total` nodes. -/
def visit (g : Graph Sub) (w : WiringMap) (total index : Nat) (id : String)
    (st : WalkState sv) : Trace sv :=
  match g.nodes.get? id with
  | none => ⟨[], st, some (id, .lookup (.node id))⟩
  | some node =>
      let label := node.label.getD ""
      match st.bind g w node st.artifacts with
      | (.error (.raise failure), artifacts) =>
          ⟨[], { st with artifacts }, some (id, .lookup failure)⟩
      | (.error (.skip reason), artifacts) =>
          ⟨[.skip id label reason],
            { st with artifacts, node_status := st.node_status.set id .SKIPPED }, none⟩
      | (.ok bound, artifacts) =>
          match attempt { st with artifacts } node id bound with
          | (.ok event, st') => ⟨[.start id label index total, event], st', none⟩
          | (.error e, st') => ⟨[.start id label index total], st', some (id, e)⟩

/-- The loop over the nodes in scope. -/
def walk (g : Graph Sub) (w : WiringMap) (total : Nat) :
    Nat → List String → WalkState sv → Trace sv
  | _, [], st => ⟨[], st, none⟩
  | index, id :: rest, st =>
      let t := visit g w total index id st
      match t.escaped with
      | some _ => t
      | none =>
          let t' := walk g w total (index + 1) rest t.state
          ⟨t.events ++ t'.events, t'.state, t'.escaped⟩

/-! ## The whole run -/

/-- The guards of the stream, giving the nodes in scope in the order they
are visited, and the wiring. -/
def Server.prepare (sv : Server Sub V C ε) (g : Graph Sub) (only : Option (List String)) :
    Except CodegenError (List String × WiringMap) := do
  Checks.guard (sv.gate g) .validation
  g.check_paradigms
  let order ← topological_sort g
  let order := match only with
    | none => order
    | some ids => order.filter (· ∈ ids)
  let w ← build_wiring_map g
  g.check_bound_inputs sv.runtime.registry w (fun _ _ => false) order
  pure (order, w)

/-- `_execute_functional_stream`: a guard raises before the first event. -/
def Server.stream (sv : Server Sub V C ε) (g : Graph Sub) (only : Option (List String))
    (cache : sv.cache.State) (artifacts : sv.artifacts.State) : Except CodegenError (Trace sv) := do
  let (order, w) ← sv.prepare g only
  pure (walk g w order.length 1 order { cache, artifacts })

end EmergentFlow
