import EmergentFlow.Ir.Overlap
import EmergentFlow.Nodes.CustomCode

/-!
# Ir — MutationLaw

What `apply_mutation` promises for every graph and every mutation: a
`MutationError` or a valid graph in which everything the mutation does not name
is as it was, and no reference to a removed node. The two exceptions that get
past it are those of `Escapes`.

The maps and lists it works on are copies, so the arguments stay what they are:
here they are values.
-/

namespace EmergentFlow

variable {Sub : Type}

/-! ## The objects before the params are set -/

/-- What a map holds under `k` once the ids in `removed` are out and `added` are
in. -/
def left_of {α : Type} (key : α → String) (removed : List String) (added : List α)
    (d : Dict String α) (k : String) : Option α :=
  (added.find? (key · = k)).or (if k ∈ removed then none else d.get? k)

/-- The node that a param update of `k` is about, as the mutation or the graph
gives it. -/
def edited_node (g : Graph Sub) (m : GraphMutation Sub) (k : String) : Option (Node Sub) :=
  left_of (·.id) m.remove_nodes m.add_nodes g.nodes k

def left_edge (g : Graph Sub) (m : GraphMutation Sub) (k : String) : Option Edge :=
  left_of (·.id) m.remove_edges m.add_edges g.edges k

theorem get?_left_of {α : Type} {key : α → String} {removed : List String} {added : List α}
    {d kept d' : Dict String α} (hremoved : Dict.Removed removed d kept)
    (hadded : Dict.Inserted key added kept d') (k : String) :
    d'.get? k = left_of key removed added d k := by
  rw [left_of]
  by_cases hk : k ∈ added.map key
  · obtain ⟨a, ha, rfl⟩ := List.mem_map.mp hk
    rw [hadded.here a ha, Dict.find?_key hadded.nodup ha, Option.some_or]
  · rw [hadded.frame k hk, Dict.find?_key_eq_none.mpr hk, Option.none_or]
    split
    · rename_i hrem
      exact hremoved.gone k hrem
    · rename_i hrem
      exact hremoved.frame k hrem

/-- The added nodes are stored as given, but for their positions. -/
theorem find?_place_nodes (existing taken : List Position) (l : List (Node Sub)) (index : Nat)
    (k : String) : ∃ p, (place_nodes existing l index taken).find? (·.id = k) =
      (l.find? (·.id = k)).map ({ · with position := p }) := by
  induction l generalizing index taken with
  | nil => exact ⟨{}, rfl⟩
  | cons node rest ih =>
      have hstored : Stored existing taken node (place_node existing taken index node).1 :=
        stored_place_node node
      by_cases hk : node.id = k
      · subst hk
        refine ⟨(place_node existing taken index node).1.position, ?_⟩
        simp only [place_nodes, List.find?_cons, hstored.id, decide_true, Option.map_some]
        exact congrArg some hstored.placed
      · obtain ⟨p, hp⟩ := ih ((place_node existing taken index node).1.position :: taken)
          (place_node existing taken index node).2
        refine ⟨p, ?_⟩
        simp only [place_nodes, List.find?_cons, hstored.id, hk, decide_false, hp]

/-- What is placed under `k` is what the mutation or the graph gives. -/
theorem get?_placed {g : Graph Sub} {m : GraphMutation Sub} {kept placed : Dict String (Node Sub)}
    (hremoved : Dict.Removed m.remove_nodes g.nodes kept)
    (hadded : Dict.Inserted (·.id) (place_nodes g.positions m.add_nodes 0 g.positions) kept placed)
    (k : String) : ∃ p, placed.get? k = (edited_node g m k).map ({ · with position := p }) := by
  rw [get?_left_of hremoved hadded k, edited_node, left_of, left_of]
  obtain ⟨p, hp⟩ := find?_place_nodes g.positions g.positions m.add_nodes 0 k
  rw [hp]
  cases m.add_nodes.find? (·.id = k) with
  | some n => exact ⟨p, rfl⟩
  | none =>
      simp only [Option.map_none, Option.none_or]
      split
      · exact ⟨p, rfl⟩
      · cases g.nodes.get? k with
        | none => exact ⟨p, rfl⟩
        | some n => exact ⟨n.position, rfl⟩

/-! ## The phases before the params are set -/

/-- The ids that a mutation removes are there, each named once, and those it
adds are free by then. -/
structure Prepared (g : Graph Sub) (m : GraphMutation Sub) : Prop where
  nodes_once : m.remove_nodes.Nodup
  nodes_present : ∀ id ∈ m.remove_nodes, ∃ n, g.nodes.get? id = some n
  edges_once : m.remove_edges.Nodup
  edges_present : ∀ id ∈ m.remove_edges, ∃ e, g.edges.get? id = some e
  nodes_distinct : (m.add_nodes.map (·.id)).Nodup
  nodes_free : ∀ n ∈ m.add_nodes, n.id ∈ m.remove_nodes ∨ g.nodes.get? n.id = none
  edges_distinct : (m.add_edges.map (·.id)).Nodup
  edges_free : ∀ e ∈ m.add_edges, e.id ∈ m.remove_edges ∨ g.edges.get? e.id = none

/-- The maps that the first two phases leave. -/
structure Phases (g : Graph Sub) (m : GraphMutation Sub) (placed : Dict String (Node Sub))
    (edges : Dict String Edge) : Prop where
  reached : ∃ kept kept_edges, remove_ids .remove_node m.remove_nodes g.nodes = .ok kept ∧
    remove_ids .remove_edge m.remove_edges g.edges = .ok kept_edges ∧
    add_nodes_loop g.positions m.add_nodes 0 g.positions kept = .ok placed ∧
    add_edges_loop m.add_edges kept_edges = .ok edges

section Phases

variable {reg : NodeRegistry} {g : Graph Sub} {m : GraphMutation Sub}
  {placed : Dict String (Node Sub)} {edges : Dict String Edge}

theorem Phases.prepared (h : Phases g m placed edges) : Prepared g m := by
  obtain ⟨kept, kept_edges, hkept, hedges, hplaced, hadded⟩ := h.reached
  have hnodes := remove_ids_spec hkept
  have hedges := remove_ids_spec hedges
  have hplaced := add_nodes_loop_spec hplaced
  have hadded := add_edges_loop_spec hadded
  refine {
    nodes_once := hnodes.nodup, nodes_present := hnodes.present
    edges_once := hedges.nodup, edges_present := hedges.present
    nodes_distinct := ?_, nodes_free := ?_
    edges_distinct := hadded.nodup, edges_free := ?_ }
  · rw [← place_nodes_ids g.positions g.positions m.add_nodes 0]
    exact hplaced.nodup
  · intro n hn
    by_cases hrem : n.id ∈ m.remove_nodes
    · exact .inl hrem
    · rw [← hnodes.frame n.id hrem]
      have hid : n.id ∈ (place_nodes g.positions m.add_nodes 0 g.positions).map (·.id) := by
        rw [place_nodes_ids]
        exact List.mem_map_of_mem hn
      obtain ⟨b, hb, hid⟩ := List.mem_map.mp hid
      exact .inr (hid ▸ hplaced.fresh b hb)
  · intro e he
    by_cases hrem : e.id ∈ m.remove_edges
    · exact .inl hrem
    · rw [← hedges.frame e.id hrem]
      exact .inr (hadded.fresh e he)

theorem Prepared.phases (h : Prepared g m) : ∃ placed edges, Phases g m placed edges := by
  obtain ⟨kept, hkept⟩ := remove_ids_exists .remove_node h.nodes_once h.nodes_present
  obtain ⟨kept_edges, hedges⟩ := remove_ids_exists .remove_edge h.edges_once h.edges_present
  have hnodes_free : ∀ n ∈ m.add_nodes, kept.get? n.id = none := by
    intro n hn
    by_cases hrem : n.id ∈ m.remove_nodes
    · exact (remove_ids_spec hkept).gone _ hrem
    · rw [(remove_ids_spec hkept).frame _ hrem]
      exact (h.nodes_free n hn).resolve_left hrem
  have hedges_free : ∀ e ∈ m.add_edges, kept_edges.get? e.id = none := by
    intro e he
    by_cases hrem : e.id ∈ m.remove_edges
    · exact (remove_ids_spec hedges).gone _ hrem
    · rw [(remove_ids_spec hedges).frame _ hrem]
      exact (h.edges_free e he).resolve_left hrem
  obtain ⟨placed, hplaced⟩ :=
    add_nodes_loop_exists g.positions g.positions 0 h.nodes_distinct hnodes_free
  obtain ⟨edges, hadded⟩ := add_edges_loop_exists h.edges_distinct hedges_free
  exact ⟨placed, edges, kept, kept_edges, hkept, hedges, hplaced, hadded⟩

theorem Phases.edge (h : Phases g m placed edges) (k : String) : edges.get? k = left_edge g m k := by
  obtain ⟨kept, kept_edges, -, hedges, -, hadded⟩ := h.reached
  exact get?_left_of (remove_ids_spec hedges) (add_edges_loop_spec hadded) k

theorem Phases.node (h : Phases g m placed edges) (k : String) :
    ∃ p, placed.get? k = (edited_node g m k).map ({ · with position := p }) := by
  obtain ⟨kept, kept_edges, hkept, -, hplaced, -⟩ := h.reached
  exact get?_placed (remove_ids_spec hkept) (add_nodes_loop_spec hplaced) k

/-- After the first two phases the params are set, and then the result is
validated. -/
theorem Phases.apply (h : Phases g m placed edges) : apply_mutation reg g m =
    set_params_loop reg m.set_params.entries placed >>= fun nodes =>
      match ({ g with nodes := nodes, edges := edges } : Graph Sub).validate_structure with
      | .ok _ => .ok { g with nodes := nodes, edges := edges }
      | .error e => .error (.structure e) := by
  obtain ⟨kept, kept_edges, hkept, hedges, hplaced, hadded⟩ := h.reached
  rw [apply_mutation, hkept, hedges]
  show add_nodes_loop g.positions m.add_nodes 0 g.positions kept >>= _ = _
  rw [hplaced]
  show add_edges_loop m.add_edges kept_edges >>= _ = _
  rw [hadded]
  rfl

end Phases

/-! ## Errors -/

/-- The update of a node goes through. -/
def EditPasses (reg : NodeRegistry) (node : Option (Node Sub))
    (updates : Dict String ParamValue) : Prop :=
  ∃ n, node = some n ∧ n.blank_names updates = [] ∧
    contract_errors reg (n.with_params updates) = []

/-- The update of a node raises something else than a `MutationError`: a fresh
name is blank, or the checks of the node itself break off. -/
def EditEscapes (reg : NodeRegistry) (node : Option (Node Sub))
    (updates : Dict String ParamValue) : Prop :=
  ∃ n, node = some n ∧ (n.blank_names updates ≠ [] ∨
    ∃ exception, .raised exception ∈ contract_errors reg (n.with_params updates))

/-- The update `x` is the first that does not go through, and what it raises is
no `MutationError`. -/
structure FirstEscape (reg : NodeRegistry) (node : String → Option (Node Sub))
    (pre : List (String × Dict String ParamValue)) (x : String × Dict String ParamValue) :
    Prop where
  before : ∀ a ∈ pre, EditPasses reg (node a.1) a.2
  here : EditEscapes reg (node x.1) x.2

theorem EditEscapes.not_passes {reg : NodeRegistry} {node : Option (Node Sub)}
    {updates : Dict String ParamValue} (h : EditEscapes reg node updates) :
    ¬ EditPasses reg node updates := by
  rintro ⟨n, rfl, hblank, hcontract⟩
  obtain ⟨n', hn, hor⟩ := h
  cases hn
  rcases hor with hb | ⟨exception, hx⟩
  · exact hb hblank
  · rw [hcontract] at hx
    cases hx

theorem exists_entry_cons {α : Type} {P : List α → α → Prop} {a : α} {l : List α} :
    (∃ pre x post, a :: l = pre ++ x :: post ∧ P pre x) ↔
      P [] a ∨ ∃ pre x post, l = pre ++ x :: post ∧ P (a :: pre) x := by
  constructor
  · rintro ⟨pre, x, post, hl, hp⟩
    cases pre with
    | nil =>
        obtain ⟨rfl, rfl⟩ := List.cons_eq_cons.mp hl
        exact .inl hp
    | cons b pre =>
        obtain ⟨rfl, hrest⟩ := List.cons_eq_cons.mp hl
        exact .inr ⟨pre, x, post, hrest, hp⟩
  · rintro (hp | ⟨pre, x, post, rfl, hp⟩)
    · exact ⟨[], a, l, rfl, hp⟩
    · exact ⟨a :: pre, x, post, rfl, hp⟩

theorem is_mutation_error_contract {node_id : String} {errors : List ContractError} :
    (MutationError.contract node_id errors).is_mutation_error = false ↔
      ∃ exception, .raised exception ∈ errors := by
  rw [MutationError.is_mutation_error, List.all_eq_false]
  constructor
  · rintro ⟨x, hx, hraised⟩
    cases x with
    | raised exception => exact ⟨exception, hx⟩
    | _ => simp at hraised
  · rintro ⟨exception, hx⟩
    exact ⟨_, hx, by simp⟩

/-- The loop leaves with a foreign exception at the first update that does not
go through, if it raises one. -/
theorem set_params_loop_escapes_iff {reg : NodeRegistry}
    {updates : List (String × Dict String ParamValue)} {d : Dict String (Node Sub)}
    (hnodup : (updates.map Prod.fst).Nodup) :
    (∃ err, set_params_loop reg updates d = .error err ∧ err.is_mutation_error = false) ↔
      ∃ pre x post, updates = pre ++ x :: post ∧ FirstEscape reg d.get? pre x := by
  induction updates generalizing d with
  | nil => simp [set_params_loop]
  | cons e rest ih =>
      rw [List.map_cons, List.nodup_cons] at hnodup
      rw [exists_entry_cons]
      by_cases hpass : EditPasses reg (d.get? e.1) e.2
      · -- the other updates are about other nodes
        obtain ⟨n, hn, hblank, hcontract⟩ := hpass
        have hloop : set_params_loop reg (e :: rest) d =
            set_params_loop reg rest (d.set e.1 (n.with_params e.2)) := by
          obtain ⟨node_id, u⟩ := e
          simp only at hn hblank hcontract
          simp only [set_params_loop, hn, hblank, hcontract]
        have hother : ∀ a ∈ rest, (d.set e.1 (n.with_params e.2)).get? a.1 = d.get? a.1 := by
          intro a ha
          refine Dict.get?_set_ne d _ fun heq => hnodup.1 ?_
          exact heq ▸ List.mem_map_of_mem ha
        rw [hloop, ih hnodup.2]
        constructor
        · rintro ⟨pre, x, post, rfl, hfirst⟩
          refine .inr ⟨pre, x, post, rfl, ?_, ?_⟩
          · intro a ha
            rcases List.mem_cons.mp ha with rfl | ha
            · exact ⟨n, hn, hblank, hcontract⟩
            · rw [← hother a (List.mem_append_left _ ha)]
              exact hfirst.before a ha
          · rw [← hother x (List.mem_append_right _ List.mem_cons_self)]
            exact hfirst.here
        · rintro (hfirst | ⟨pre, x, post, rfl, hfirst⟩)
          · exact absurd ⟨n, hn, hblank, hcontract⟩ hfirst.here.not_passes
          · refine ⟨pre, x, post, rfl, ?_, ?_⟩
            · intro a ha
              rw [hother a (List.mem_append_left _ ha)]
              exact hfirst.before a (List.mem_cons_of_mem _ ha)
            · rw [hother x (List.mem_append_right _ List.mem_cons_self)]
              exact hfirst.here
      · -- the loop ends here
        have hhere : (∃ err, set_params_loop reg (e :: rest) d = .error err ∧
            err.is_mutation_error = false) ↔ EditEscapes reg (d.get? e.1) e.2 := by
          obtain ⟨node_id, u⟩ := e
          cases hd : d.get? node_id with
          | none => simp [set_params_loop, hd, EditEscapes, MutationError.is_mutation_error]
          | some n =>
              cases hb : n.blank_names u with
              | cons name names =>
                  simp [set_params_loop, hd, hb, EditEscapes, MutationError.is_mutation_error]
              | nil =>
                  cases hc : contract_errors reg (n.with_params u) with
                  | nil => exact absurd ⟨n, hd, hb, hc⟩ hpass
                  | cons x xs =>
                      simp [set_params_loop, hd, hb, hc, EditEscapes, is_mutation_error_contract]
        rw [hhere]
        constructor
        · exact fun hesc => .inl ⟨fun _ hnil => absurd hnil List.not_mem_nil, hesc⟩
        · rintro (hfirst | ⟨pre, x, post, rfl, hfirst⟩)
          · exact hfirst.here
          · exact absurd (hfirst.before e List.mem_cons_self) hpass

/-- What does not depend on where a node is holds of it wherever it is put. -/
theorem exists_placed_iff {node : Option (Node Sub)} {p : Position} {P : Node Sub → Prop}
    (hP : ∀ n, P { n with position := p } ↔ P n) :
    (∃ n, node.map ({ · with position := p }) = some n ∧ P n) ↔ ∃ n, node = some n ∧ P n := by
  cases node with
  | none => simp
  | some n => simp only [Option.map_some, Option.some.injEq, exists_eq_left', hP]

theorem EditPasses.congr {reg : NodeRegistry} {node : Option (Node Sub)} {p : Position}
    {updates : Dict String ParamValue} :
    EditPasses reg (node.map ({ · with position := p })) updates ↔ EditPasses reg node updates :=
  exists_placed_iff fun _ => Iff.rfl

theorem EditEscapes.congr {reg : NodeRegistry} {node : Option (Node Sub)} {p : Position}
    {updates : Dict String ParamValue} :
    EditEscapes reg (node.map ({ · with position := p })) updates ↔
      EditEscapes reg node updates :=
  exists_placed_iff fun _ => Iff.rfl

/-- What gets past `apply_mutation`: its removes and adds go through, and the
first param update that does not raises something else than a `MutationError`. -/
structure Escapes (reg : NodeRegistry) (g : Graph Sub) (m : GraphMutation Sub) : Prop where
  prepared : Prepared g m
  first : ∃ pre x post, m.set_params.entries = pre ++ x :: post ∧
    FirstEscape reg (edited_node g m) pre x

theorem firstEscape_placed_iff {reg : NodeRegistry} {g : Graph Sub} {m : GraphMutation Sub}
    {placed : Dict String (Node Sub)} {edges : Dict String Edge} (h : Phases g m placed edges)
    {pre : List (String × Dict String ParamValue)} {x : String × Dict String ParamValue} :
    FirstEscape reg placed.get? pre x ↔ FirstEscape reg (edited_node g m) pre x := by
  have hpasses : ∀ k u, EditPasses reg (placed.get? k) u ↔ EditPasses reg (edited_node g m k) u := by
    intro k u
    obtain ⟨p, hp⟩ := h.node k
    rw [hp, EditPasses.congr]
  have hescapes : ∀ k u,
      EditEscapes reg (placed.get? k) u ↔ EditEscapes reg (edited_node g m k) u := by
    intro k u
    obtain ⟨p, hp⟩ := h.node k
    rw [hp, EditEscapes.congr]
  constructor
  · exact fun hf => ⟨fun a ha => (hpasses _ _).mp (hf.before a ha), (hescapes _ _).mp hf.here⟩
  · exact fun hf => ⟨fun a ha => (hpasses _ _).mpr (hf.before a ha), (hescapes _ _).mpr hf.here⟩

theorem remove_ids_error {α : Type} {missing : String → MutationError} {ids : List String}
    {d : Dict String α} {err : MutationError} (h : remove_ids missing ids d = .error err) :
    ∃ id, err = missing id := by
  induction ids generalizing d with
  | nil => cases h
  | cons id ids ih =>
      rw [remove_ids] at h
      split at h
      · exact ih h
      · exact ⟨id, (Except.error.inj h).symm⟩

theorem add_nodes_loop_error {existing taken : List Position} {l : List (Node Sub)} {index : Nat}
    {d : Dict String (Node Sub)} {err : MutationError}
    (h : add_nodes_loop existing l index taken d = .error err) : ∃ id, err = .add_node id := by
  induction l generalizing index taken d with
  | nil => cases h
  | cons node rest ih =>
      rw [add_nodes_loop] at h
      split at h
      · exact ⟨node.id, (Except.error.inj h).symm⟩
      · exact ih h

theorem add_edges_loop_error {l : List Edge} {d : Dict String Edge} {err : MutationError}
    (h : add_edges_loop l d = .error err) : ∃ id, err = .add_edge id := by
  induction l generalizing d with
  | nil => cases h
  | cons edge rest ih =>
      rw [add_edges_loop] at h
      split at h
      · exact ⟨edge.id, (Except.error.inj h).symm⟩
      · exact ih h

/-- What the first two phases raise is a `MutationError`. -/
theorem apply_mutation_error {reg : NodeRegistry} {g : Graph Sub} {m : GraphMutation Sub}
    {err : MutationError} (h : apply_mutation reg g m = .error err) :
    err.is_mutation_error = true ∨ ∃ placed edges, Phases g m placed edges := by
  rcases Checks.bind_eq_error.mp h with h | ⟨kept, hkept, h⟩
  · obtain ⟨id, rfl⟩ := remove_ids_error h
    exact .inl rfl
  rcases Checks.bind_eq_error.mp h with h | ⟨kept_edges, hedges, h⟩
  · obtain ⟨id, rfl⟩ := remove_ids_error h
    exact .inl rfl
  rcases Checks.bind_eq_error.mp h with h | ⟨placed, hplaced, h⟩
  · obtain ⟨id, rfl⟩ := add_nodes_loop_error h
    exact .inl rfl
  rcases Checks.bind_eq_error.mp h with h | ⟨edges, hadded, h⟩
  · obtain ⟨id, rfl⟩ := add_edges_loop_error h
    exact .inl rfl
  · exact .inr ⟨placed, edges, kept, kept_edges, hkept, hedges, hplaced, hadded⟩

/-- Setting the params decides which exception leaves, if any does. -/
theorem Phases.escapes_iff {reg : NodeRegistry} {g : Graph Sub} {m : GraphMutation Sub}
    {placed : Dict String (Node Sub)} {edges : Dict String Edge} (h : Phases g m placed edges) :
    (∃ err, apply_mutation reg g m = .error err ∧ err.is_mutation_error = false) ↔
      ∃ pre x post, m.set_params.entries = pre ++ x :: post ∧
        FirstEscape reg (edited_node g m) pre x := by
  simp only [← firstEscape_placed_iff h]
  rw [← set_params_loop_escapes_iff m.set_params.nodup, h.apply]
  constructor
  · rintro ⟨err, herr, hforeign⟩
    rcases Checks.bind_eq_error.mp herr with herr | ⟨nodes, -, herr⟩
    · exact ⟨err, herr, hforeign⟩
    · split at herr
      · cases herr
      · cases herr
        cases hforeign
  · rintro ⟨err, herr, hforeign⟩
    exact ⟨err, Checks.bind_eq_error.mpr (.inl herr), hforeign⟩

theorem escapes_iff {reg : NodeRegistry} {g : Graph Sub} {m : GraphMutation Sub} :
    (∃ err, apply_mutation reg g m = .error err ∧ err.is_mutation_error = false) ↔
      Escapes reg g m := by
  constructor
  · rintro ⟨err, herr, hforeign⟩
    rcases apply_mutation_error herr with hdeclared | ⟨placed, edges, hphases⟩
    · rw [hforeign] at hdeclared
      cases hdeclared
    · exact ⟨hphases.prepared, hphases.escapes_iff.mp ⟨err, herr, hforeign⟩⟩
  · intro h
    obtain ⟨placed, edges, hphases⟩ := h.prepared.phases
    exact hphases.escapes_iff.mpr h.first

/-! ## Results -/

/-- What the result has in common with the graph and the mutation. -/
structure Framed (g : Graph Sub) (m : GraphMutation Sub) (g' : Graph Sub) : Prop where
  schema_version : g'.schema_version = g.schema_version
  paradigm : g'.paradigm = g.paradigm
  name : g'.name = g.name
  params : g'.params = g.params
  node : ∀ k, k ∉ m.remove_nodes → k ∉ m.add_nodes.map (·.id) → k ∉ m.set_params.keys →
    g'.nodes.get? k = g.nodes.get? k
  edge : ∀ k, k ∉ m.remove_edges → k ∉ m.add_edges.map (·.id) →
    g'.edges.get? k = g.edges.get? k
  removed : ∀ k ∈ m.remove_nodes, k ∉ m.add_nodes.map (·.id) → g'.nodes.get? k = none
  removed_edge : ∀ k ∈ m.remove_edges, k ∉ m.add_edges.map (·.id) → g'.edges.get? k = none
  added : ∀ n ∈ m.add_nodes, n.id ∉ m.set_params.keys →
    ∃ p, g'.nodes.get? n.id = some { n with position := p }
  added_edge : ∀ e ∈ m.add_edges, g'.edges.get? e.id = some e
  edited : ∀ k updates, m.set_params.get? k = some updates → ∃ n n', edited_node g m k = some n ∧
    g'.nodes.get? k = some n' ∧
    n' = { n with params := n'.params, position := n'.position } ∧
    (k ∉ m.add_nodes.map (·.id) → n'.position = n.position) ∧
    ∀ (i : Nat) (p : Param), n.params[i]? = some p →
      n'.params[i]? = some { p with value := (updates.get? p.name).getD p.value }

/-- The result would refer to a removed node that no added one replaces: an
edge that is left ends at it, or a node that is left is in it as its group. -/
inductive Dangles (g : Graph Sub) (m : GraphMutation Sub) : Prop
  | edge (k : String) (e : Edge) (r : PortRef) (left : left_edge g m k = some e)
      (endpoint : r = e.source ∨ r = e.target) (removed : r.node_id ∈ m.remove_nodes)
      (gone : ∀ n ∈ m.add_nodes, n.id = r.node_id → r.port_id ∉ n.ports.map (·.id))
  | group (k : String) (n : Node Sub) (gid : String) (left : edited_node g m k = some n)
      (grouped : n.group_id = some gid) (removed : gid ∈ m.remove_nodes)
      (gone : gid ∉ m.add_nodes.map (·.id))

section Result

variable {reg : NodeRegistry} {g g' : Graph Sub} {m : GraphMutation Sub}
  {kept placed : Dict String (Node Sub)} {kept_edges : Dict String Edge}

theorem Applied.get?_edge (ha : Applied reg g m kept placed kept_edges g') (k : String) :
    g'.edges.get? k = left_edge g m k :=
  get?_left_of ha.removed_edges ha.added_edges k

/-- A node of the result is the one that was left, but for params and position. -/
theorem Applied.get?_node (ha : Applied reg g m kept placed kept_edges g') {k : String}
    {n' : Node Sub} (hn' : g'.nodes.get? k = some n') : ∃ n, edited_node g m k = some n ∧
      n' = { n with params := n'.params, position := n'.position } := by
  obtain ⟨p, hp⟩ := get?_placed ha.removed ha.added k
  by_cases hk : k ∈ m.set_params.keys
  · obtain ⟨updates, hset⟩ := (Dict.mem_keys_iff _).mp hk
    obtain ⟨a, hplaced, -, -, hfinal⟩ := ha.params_set.here _ ((Dict.mem_entries_iff _).mpr hset)
    rw [hn', Option.some.injEq] at hfinal
    rw [hplaced] at hp
    obtain ⟨n, hn, rfl⟩ := Option.map_eq_some_iff.mp hp.symm
    subst hfinal
    exact ⟨n, hn, rfl⟩
  · rw [ha.params_set.frame k hk, hp] at hn'
    obtain ⟨n, hn, rfl⟩ := Option.map_eq_some_iff.mp hn'
    exact ⟨n, hn, rfl⟩

theorem Applied.exists_node (ha : Applied reg g m kept placed kept_edges g') {k : String}
    {n : Node Sub} (hn : edited_node g m k = some n) : ∃ n', g'.nodes.get? k = some n' := by
  obtain ⟨p, hp⟩ := get?_placed ha.removed ha.added k
  have hposition := ha.params_set.position k
  rw [hp, hn, Option.map_some, Option.map_some, Option.map_eq_some_iff] at hposition
  obtain ⟨n', hn', -⟩ := hposition
  exact ⟨n', hn'⟩

theorem edited_node_of_not_added {k : String} (hk : k ∉ m.add_nodes.map (·.id)) :
    edited_node g m k = if k ∈ m.remove_nodes then none else g.nodes.get? k := by
  rw [edited_node, left_of, Dict.find?_key_eq_none.mpr hk, Option.none_or]

theorem Applied.node_ids (ha : Applied reg g m kept placed kept_edges g') :
    (m.add_nodes.map (·.id)).Nodup := by
  rw [← place_nodes_ids g.positions g.positions m.add_nodes 0]
  exact ha.added.nodup

theorem Applied.framed (ha : Applied reg g m kept placed kept_edges g') : Framed g m g' := by
  have hheader := ha.header
  refine {
    schema_version := by rw [hheader]
    paradigm := by rw [hheader]
    name := by rw [hheader]
    params := by rw [hheader]
    node := ?_, edge := ?_, removed := ?_, removed_edge := ?_, added := ?_
    added_edge := ha.added_edges.here, edited := ?_ }
  · intro k hrem hadd hset
    rw [ha.get?_of_not_added hadd, if_neg hrem, (Dict.get?_eq_none_iff _).mpr hset]
  · intro k hrem hadd
    rw [ha.added_edges.frame k hadd, ha.removed_edges.frame k hrem]
  · intro k hrem hadd
    rw [ha.get?_of_not_added hadd, if_pos hrem]
  · intro k hrem hadd
    rw [ha.added_edges.frame k hadd, ha.removed_edges.gone k hrem]
  · intro n hn hset
    obtain ⟨p, hp⟩ := get?_placed ha.removed ha.added n.id
    rw [edited_node, left_of, Dict.find?_key ha.node_ids hn, Option.some_or, Option.map_some] at hp
    exact ⟨p, by rw [ha.params_set.frame n.id hset, hp]⟩
  · intro k updates hset
    obtain ⟨a, hplaced, -, -, hfinal⟩ := ha.params_set.here _ ((Dict.mem_entries_iff _).mpr hset)
    obtain ⟨n, hn, hparts⟩ := ha.get?_node hfinal
    obtain ⟨p, hp⟩ := get?_placed ha.removed ha.added k
    rw [hplaced, hn, Option.map_some, Option.some.injEq] at hp
    subst hp
    refine ⟨n, _, hn, hfinal, hparts, ?_, ?_⟩
    · -- an updated node that was there before keeps its position
      intro hadd
      have hsame : placed.get? k = some n := by
        rw [← hn, edited_node_of_not_added hadd, ← ha.kept_get? k]
        rw [← place_nodes_ids g.positions g.positions m.add_nodes 0] at hadd
        exact ha.added.frame k hadd
      rw [hplaced, Option.some.injEq] at hsame
      have hposition : p = n.position := congrArg Node.position hsame
      exact hposition
    · intro i q hq
      have hlt : i < (n.params.map (·.updated updates)).length := by
        rw [List.length_map]
        exact (List.getElem?_eq_some_iff.mp hq).1
      show (updated_params n.params updates)[i]? = _
      rw [updated_params, List.getElem?_append_left hlt, List.getElem?_map, hq, Option.map_some,
        Param.updated]
      cases updates.get? q.name <;> rfl

/-- A reference to a removed node does not survive the validation. -/
theorem Applied.not_dangles (ha : Applied reg g m kept placed kept_edges g')
    (hdangles : Dangles g m) : False := by
  cases hdangles with
  | edge k e r left endpoint removed gone =>
      rw [← ha.get?_edge] at left
      have hport : ∃ d, g'.port_direction r = some d := by
        rcases endpoint with rfl | rfl
        · exact ⟨_, ha.valid.source_out left⟩
        · exact ⟨_, ha.valid.target_in left⟩
      -- the port of the endpoint is that of a node the mutation adds
      obtain ⟨d, hd⟩ := hport
      obtain ⟨n', hn', hfound⟩ := Option.bind_eq_some_iff.mp hd
      obtain ⟨port, hport, -⟩ := Option.map_eq_some_iff.mp hfound
      obtain ⟨n, hn, hparts⟩ := ha.get?_node hn'
      have hports : n'.ports = n.ports := by rw [hparts]
      rw [edited_node, left_of, if_pos removed, Option.or_none] at hn
      refine gone n (List.mem_of_find?_eq_some hn) (by simpa using List.find?_some hn) ?_
      rw [← hports]
      have hmem := List.mem_reverse.mp (List.mem_of_find?_eq_some hport)
      have hid : port.id = r.port_id := by simpa using List.find?_some hport
      exact hid ▸ List.mem_map_of_mem hmem
  | group k n gid left grouped removed gone =>
      obtain ⟨n', hn'⟩ := ha.exists_node left
      obtain ⟨n₀, hn₀, hparts⟩ := ha.get?_node hn'
      rw [left, Option.some.injEq] at hn₀
      have hgroup : n'.group_id = some gid := by
        rw [hparts, ← hn₀]
        exact grouped
      obtain ⟨a, hfound⟩ := ha.valid.group hn' hgroup
      rw [ha.get?_of_not_added gone, if_pos removed] at hfound
      cases hfound

end Result

/-! ## The law -/

/-- Every run raises a `MutationError` or gives a valid graph that differs from
the given one in what the mutation names, and rejects what would dangle. -/
structure MutationLaw (reg : NodeRegistry) (g : Graph Sub) (m : GraphMutation Sub) : Prop where
  raises : ∀ {err}, apply_mutation reg g m = .error err → err.is_mutation_error = true
  valid : ∀ {g'}, apply_mutation reg g m = .ok g' → g'.Valid
  framed : ∀ {g'}, apply_mutation reg g m = .ok g' → Framed g m g'
  rejects : Dangles g m →
    ∃ err, apply_mutation reg g m = .error err ∧ err.is_mutation_error = true

/-- A custom-code node as it comes from the palette. -/
def one_custom_code : Graph Empty :=
  { nodes := Dict.empty.set "a" {
      id := "a", type := "script.custom_code"
      params := [{ name := "code", type_token := "str", value := .str "", default := .str "" }] } }

/-- A number for its code. -/
def code_number : GraphMutation Empty :=
  { base_version := 0
    set_params := Dict.empty.set "a" (Dict.empty.set "code" (.int 5)) }

end EmergentFlow
