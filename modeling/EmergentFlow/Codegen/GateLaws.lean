import EmergentFlow.Codegen.Rejection

/-!
# Codegen — Gate laws

What the validation gate promises of the two functions behind it, and what
it does not: which guards a graph that passes can still meet, and how far
`compile_to_code` and `execute` reject alike.
-/

namespace EmergentFlow

open Agreement Checks

variable {V C F ε ε' : Type}

/-! ## The two functions -/

/-- The compiler and the executor over one node registry. -/
structure Pipeline (V C F ε ε' : Type) where
  validator : Validator
  none_value : V
  list_value : List V → V
  call : ∀ n, Behaviour (Nested n) V C ε
  clients : Clients C
  emission : Emission F ε'

namespace Pipeline

variable (s : Pipeline V C F ε ε') {n : Nat}

def runtime : Runtime V := ⟨s.validator.registry, s.none_value, s.list_value⟩

def assembler (n : Nat) : Assembler (Nested n) F ε' :=
  nested_assembler s.validator.registry s.emission n

def executor (n : Nat) : Executor (Nested n) V C ε :=
  nested_executor s.runtime s.call s.clients n

/-- `compile_to_code(graph)`. -/
def compile (g : Graph (Nested n)) : Except (AssemblyFailure ε') String :=
  compile_to_code s.validator s.emission n g

/-- `execute(graph)`, without overrides. -/
def execute (g : Graph (Nested n)) : Except (ExecutionError ε) (Results V) :=
  EmergentFlow.execute s.runtime s.validator.passes s.call s.clients n g none

/-- The gate and the guards on the outermost graph: all that the compiler
asks before its first node. -/
def front (g : Graph (Nested n)) : Except CodegenError Unit := do
  guard (s.validator.passes n g) .validation
  let _ ← (s.assembler n).prepare g Dict.empty
  pure ()

/-- The gate passes the copy that a run reads if it passes the graph. -/
def Regated (g : Graph (Nested n)) : Prop :=
  s.validator.passes n g = true → ∀ m, materialize_if_needed n g none = .ok m →
    s.validator.passes n m = true

end Pipeline

/-- The only guard of the outermost graph that a passed gate leaves. -/
def NodeParadigm {Sub : Type} (g : Graph Sub) (e : CodegenError) : Prop :=
  ∃ id node, g.nodes.get? id = some node ∧ node.paradigm ≠ .FUNCTIONAL ∧
    e = .node_paradigm node.id

section Runs

variable {s : Pipeline V C F ε ε'} {n : Nat} {g : Graph (Nested n)}

theorem Pipeline.materialize_of_passes (h : s.validator.passes n g = true) :
    materialize_if_needed n g none = .ok (bake g.stored_params n g) :=
  materialize_of_resolved (Validator.gated h).refs

theorem Pipeline.names_resolve (h : s.validator.passes n g = true) :
    RefsResolved (s.emission.build_graph_param_names n g).keys n g := by
  have hkeys : (s.emission.build_graph_param_names n g).keys = g.params.keys :=
    Dict.keys_mapValues _ _
  exact hkeys ▸ (Validator.gated h).refs

/-- A gated graph is compiled as it is assembled. -/
theorem Pipeline.compile_of_passes (h : s.validator.passes n g = true) : s.compile g =
    ((s.assembler n).assemble g Dict.empty (s.emission.build_graph_param_names n g) >>=
      fun assembled => (s.emission.render assembled).mapError .raised) := by
  rw [Pipeline.compile, compile_to_code, h]
  rfl

/-- A graph gated twice is run with the stored values baked in. -/
theorem Pipeline.execute_of_passes (h : s.validator.passes n g = true) (hregated : s.Regated g) :
    s.execute g =
      (s.executor n).execute_functional (bake g.stored_params n g) Dict.empty := by
  have hm := s.materialize_of_passes h
  rw [Pipeline.execute, EmergentFlow.execute, h, hm]
  have hgate := hregated h _ hm
  change (guard (s.validator.passes n (bake g.stored_params n g)) _ >>= fun _ => _) = _
  rw [hgate]
  rfl

theorem Pipeline.prepare_baked :
    (s.executor n).prepare (bake g.stored_params n g) Dict.empty =
      (s.assembler n).prepare g Dict.empty := by
  have hregistry : (s.assembler n).registry = (s.executor n).runtime.registry := by
    cases n <;> rfl
  rw [bake_eq_map_nodes]
  exact prepare_agrees hregistry (keepsFrame_bake_node _ _) fun _ => rfl

/-- The two functions raise the same errors about the graph. -/
theorem Pipeline.agrees (hregated : s.Regated g) :
    Agrees AssemblyFailure.structural ExecutionError.structural (fun _ _ => True)
      (s.compile g) (s.execute g) := by
  cases h : s.validator.passes n g with
  | false =>
      have hcompile : s.compile g = .error (.codegen .validation) := by
        rw [Pipeline.compile, compile_to_code, h]
        rfl
      have hexecute : s.execute g = .error (.rejected .validation) := by
        rw [Pipeline.execute, EmergentFlow.execute, h]
        rfl
      rw [hcompile, hexecute]
      exact .inr (.inr rfl)
  | true =>
      have hassemble : Agrees AssemblyFailure.structural ExecutionError.structural
          (fun _ _ => True)
          ((s.assembler n).assemble g Dict.empty (s.emission.build_graph_param_names n g))
          ((s.executor n).execute_functional (bake g.stored_params n g) Dict.empty) :=
        assemble_agrees s.runtime (s.names_resolve h) fun _ => rfl
      rw [s.compile_of_passes h, s.execute_of_passes h hregated]
      exact hassemble.bind_own fun _ _ => .mapError fun _ _ => rfl

/-- A walk is not rejected: it fails at a node. -/
theorem walk_not_rejected {Sub : Type} {x : Executor Sub V C ε} {g : Graph Sub} {w : WiringMap}
    {seeds : Dict (String × String) V} {order : List String} {results : Results V} :
    RaisesOnly (fun err => ∀ e, err ≠ .rejected e) (x.walk g w seeds order results) := by
  refine .foldlM (fun results id _ => .bind ?_ fun _ _ => .ok) _
  intro err herr
  obtain ⟨cause, -, rfl⟩ := mapError_eq_error.mp herr
  exact fun _ => nofun

/-- A run is rejected before its first node by what the compiler asks
before its own. -/
theorem Pipeline.rejected_iff (hregated : s.Regated g) {e : CodegenError} :
    s.execute g = .error (.rejected e) ↔ s.front g = .error e := by
  rw [Pipeline.front]
  cases h : s.validator.passes n g with
  | false =>
      rw [Pipeline.execute, EmergentFlow.execute, h]
      constructor
      · intro hexecute
        cases hexecute
        rfl
      · intro hfront
        cases hfront
        rfl
  | true =>
      rw [s.execute_of_passes h hregated, Executor.execute_functional, s.prepare_baked]
      cases hprepare : (s.assembler n).prepare g Dict.empty with
      | error e' =>
          constructor
          · intro hexecute
            cases hexecute
            rfl
          · intro hfront
            cases hfront
            rfl
      | ok p =>
          constructor
          · exact fun hexecute => absurd rfl (walk_not_rejected _ hexecute e)
          · intro hfront
            cases hfront

end Runs

/-! ## Laws -/

/-- What the gate promises of a functional graph. -/
structure GateLaws (s : Pipeline V C F ε ε') {n : Nat} (g : Graph (Nested n)) : Prop where
  /-- Of the guards on the graph itself, the compiler can only meet a node
  of another paradigm. -/
  compile_guards : s.validator.passes n g = true → g.paradigm = .FUNCTIONAL →
    ∀ e, (s.assembler n).prepare g Dict.empty = .error e → NodeParadigm g e
  /-- No reference fails to resolve, at any depth. -/
  materializes : s.validator.passes n g = true → ∃ m, materialize_if_needed n g none = .ok m
  compile_refs : s.validator.passes n g = true →
    ∀ c, s.compile g = .error c → NotOfRefs c.structural
  execute_refs : s.validator.passes n g = true →
    ∀ x, s.execute g = .error x → NotOfRefs x.structural
  execute_guards : s.validator.passes n g = true → g.paradigm = .FUNCTIONAL →
    ∀ m, materialize_if_needed n g none = .ok m →
      ∀ e, (s.executor n).prepare m Dict.empty = .error e → NodeParadigm g e
  /-- Both reject before their first node together, with the same error. -/
  rejected : s.Regated g → ∀ e,
    s.execute g = .error (.rejected e) ↔ s.front g = .error e
  compile_rejected : ∀ e, s.front g = .error e → s.compile g = .error (.codegen e)
  /-- What the compiler meets later, the executor meets at the node. -/
  compile_agrees : s.Regated g → ∀ c e, s.compile g = .error c → c.structural = some e →
    ∃ x, s.execute g = .error x ∧ (x.structural = some e ∨ x.structural = none)
  execute_agrees : s.Regated g → ∀ x e, s.execute g = .error x → x.structural = some e →
    ∃ c, s.compile g = .error c ∧ (c.structural = some e ∨ c.structural = none)

section Laws

variable {s : Pipeline V C F ε ε'} {n : Nat} {g : Graph (Nested n)}

theorem Pipeline.prepare_of_passes (h : s.validator.passes n g = true)
    (hfunctional : g.paradigm = .FUNCTIONAL) {e : CodegenError}
    (herror : (s.assembler n).prepare g Dict.empty = .error e) : NodeParadigm g e := by
  have hregistry : (s.assembler n).registry = s.validator.registry := by
    cases n <;> rfl
  have hprepare : (s.assembler n).prepare g Dict.empty =
      g.prepare s.validator.registry fun _ _ => false := by
    rw [← hregistry]
    rfl
  rw [hprepare] at herror
  exact (Validator.gated h).prepare_eq_error hfunctional herror

theorem Pipeline.compile_of_front {e : CodegenError} (h : s.front g = .error e) :
    s.compile g = .error (.codegen e) := by
  cases hgate : s.validator.passes n g with
  | false =>
      rw [Pipeline.front, hgate] at h
      cases h
      rw [Pipeline.compile, compile_to_code, hgate]
      rfl
  | true =>
      rw [Pipeline.front, hgate] at h
      have hprepare : (s.assembler n).prepare g Dict.empty = .error e := by
        cases hp : (s.assembler n).prepare g Dict.empty with
        | error e' =>
            rw [hp] at h
            cases h
            rfl
        | ok p =>
            rw [hp] at h
            cases h
      rw [s.compile_of_passes hgate, Assembler.assemble, hprepare]
      rfl

theorem Pipeline.compile_refs (h : s.validator.passes n g = true) :
    RaisesOnly (fun c => NotOfRefs c.structural) (s.compile g) := by
  rw [s.compile_of_passes h]
  exact .bind (assemble_not_of_refs (s.names_resolve h)) fun _ _ => .mapError fun _ _ => rfl

/-- A run of a graph that passes the gate does not complain of a reference,
whether or not its copy passes too. -/
theorem Pipeline.execute_refs (h : s.validator.passes n g = true) :
    RaisesOnly (fun x => NotOfRefs x.structural) (s.execute g) := by
  have hm := s.materialize_of_passes h
  refine .bind (.guard rfl) fun _ _ => .bind ?_ fun m _ => ?_
  · rw [hm]
    exact .mapError .ok
  · exact .bind (.guard rfl) fun _ _ => execute_not_of_refs

end Laws

theorem gate_laws (s : Pipeline V C F ε ε') {n : Nat} (g : Graph (Nested n)) : GateLaws s g where
  compile_guards h hfunctional _ := s.prepare_of_passes h hfunctional
  materializes h := ⟨_, s.materialize_of_passes h⟩
  compile_refs h := s.compile_refs h
  execute_refs h := s.execute_refs h
  execute_guards h hfunctional m hm e herror := by
    rw [s.materialize_of_passes h, Except.ok.injEq] at hm
    rw [← hm, s.prepare_baked] at herror
    exact s.prepare_of_passes h hfunctional herror
  rejected hregated _ := s.rejected_iff hregated
  compile_rejected _ := s.compile_of_front
  compile_agrees hregated _ _ hc he := (s.agrees hregated).raises_right hc he
  execute_agrees hregated _ _ hx he := (s.agrees hregated).raises_left hx he

/-! ## A type that is not registered -/

/-- A graph that passes the gate meets no structural guard. -/
def GateSound (s : Pipeline V C F ε ε') {n : Nat} (g : Graph (Nested n)) : Prop :=
  s.validator.passes n g = true → ∀ e, (∀ c, s.compile g = .error c → c.structural ≠ some e) ∧
    ∀ x, s.execute g = .error x → x.structural ≠ some e

/-- The compiler rejects a graph when the executor does so before the first
node. -/
def RejectTogether (s : Pipeline V C F ε ε') {n : Nat} (g : Graph (Nested n)) : Prop :=
  (∃ c, s.compile g = .error c) ↔ ∃ e, s.execute g = .error (.rejected e)

namespace Unregistered

/-- One registered node type, without ports, that returns nothing. -/
def system : Pipeline Unit Unit Unit Unit Unit where
  validator := {
    registry := fun type => if type = "known" then some { type } else none
    types := .new
    infer_types := fun _ _ types => types
    validity := fun _ _ => .ok []
    repr := id }
  none_value := ()
  list_value := fun _ => ()
  call := fun _ _ _ _ => .ok Dict.empty
  clients := {}
  emission := {
    kwarg := fun _ _ name => name
    context := fun _ _ _ _ _ => .ok {}
    codegen := fun _ _ _ => .ok ()
    nest := fun _ _ _ _ _ => .ok ()
    render := fun _ => .ok "" }

/-- A node of that type, and one of a type that is not registered. -/
def graph : Graph (Nested 0) where
  nodes := Dict.ofList [("a", { id := "a", type := "known" }),
    ("b", { id := "b", type := "unknown" })]

end Unregistered

/-- The gate passes a graph with a node of an unregistered type. The
compiler rejects it, the executor runs the node before it first. -/
theorem unregistered_type_passes_gate :
    Unregistered.graph.Valid ∧ Unregistered.graph.paradigm = .FUNCTIONAL ∧
      Unregistered.system.validator.passes 0 Unregistered.graph = true ∧
      Unregistered.system.compile Unregistered.graph = .error (.unregistered "unknown") ∧
      Unregistered.system.execute Unregistered.graph =
        .error (.failed "b" (.unregistered "unknown")) ∧
      ¬ GateSound Unregistered.system Unregistered.graph ∧
      ¬ RejectTogether Unregistered.system Unregistered.graph := by
  have hpasses : Unregistered.system.validator.passes 0 Unregistered.graph = true := by rfl
  have hcompile : Unregistered.system.compile Unregistered.graph =
      .error (.unregistered "unknown") := by rfl
  have hexecute : Unregistered.system.execute Unregistered.graph =
      .error (.failed "b" (.unregistered "unknown")) := by rfl
  refine ⟨Graph.validate_structure_eq_ok.mp rfl, rfl, hpasses, hcompile, hexecute, ?_, ?_⟩
  · intro hsound
    exact (hsound hpasses _).1 _ hcompile rfl
  · intro htogether
    obtain ⟨e, he⟩ := htogether.mp ⟨_, hcompile⟩
    rw [hexecute] at he
    cases he

end EmergentFlow
