import Mathlib.Data.Rat.Defs
import Mathlib.Algebra.Order.Ring.Rat
import EmergentFlow.Lib.Dict
import EmergentFlow.Lib.Checks

/-!
# Ir — Graph

The graph IR: ports, params, nodes, edges and the graph that owns them
(`emergentflow/ir/`). A node may own an inner graph (`Node.subgraph`, the
unified nesting of ADR 0003). `Node Sub` and `Graph Sub` are generic in
the type of that inner graph, because nearly every operation of the
program passes it along untouched; `Nested n` ties the knot, giving the
graphs whose composites are nested at most `n` deep.

Coordinates are floats in the source and exact rationals here.
-/

namespace EmergentFlow

/-! ## Common enums -/

/-- Port directionality. -/
inductive Direction where
  | IN
  | OUT
  deriving DecidableEq, Repr

/-- How many connections a port accepts. -/
inductive Cardinality where
  | ONE
  | MANY
  deriving DecidableEq, Repr

/-- Execution paradigm of a graph or node (ADR 0003). -/
inductive Paradigm where
  | FUNCTIONAL
  | DECLARATIVE
  deriving DecidableEq, Repr

/-! ## Params, ports, edges, nodes -/

/-- A param's value: JSON data, or the location of an artifact. -/
inductive ParamValue where
  | none
  | bool (b : Bool)
  | int (i : Int)
  | float (x : Rat)
  | str (s : String)
  | artifact_ref (uri : String) (media_type : Option String)
  | sequence (items : List ParamValue)
  | mapping (items : List (String × ParamValue))
  deriving Repr

/-- `bool(value)`. -/
def ParamValue.truthy : ParamValue → Bool
  | .none => false
  | .bool b => b
  | .int i => i ≠ 0
  | .float x => x ≠ 0
  | .str s => s ≠ ""
  | .artifact_ref _ _ => true
  | .sequence items => !items.isEmpty
  | .mapping items => !items.isEmpty

/-- A typed parameter of a node or of the graph. -/
structure Param where
  name : String
  type_token : String
  value : ParamValue := .none
  default : ParamValue := .none
  ref : Option String := .none
  description : Option String := .none
  deriving Repr

/-- A typed connection point on a node. -/
structure Port where
  id : String
  name : String
  direction : Direction
  data_type : String := "any"
  cardinality : Cardinality := .ONE
  label : Option String := none
  deriving DecidableEq, Repr

/-- An endpoint reference: a node id and the id of one of its ports. -/
structure PortRef where
  node_id : String
  port_id : String
  deriving DecidableEq, Repr

/-- A directed connection from an OUT port to an IN port. -/
structure Edge where
  id : String
  source : PortRef
  target : PortRef
  type_compatible : Option Bool := none
  deriving DecidableEq, Repr

/-- Canvas coordinates; the default is the origin. -/
structure Position where
  x : Rat := 0
  y : Rat := 0
  deriving DecidableEq, Repr

/-- A node of the IR, owning an inner graph of type `Sub` or none. -/
structure Node (Sub : Type) where
  id : String
  type : String
  label : Option String := none
  paradigm : Paradigm := .FUNCTIONAL
  params : List Param := []
  ports : List Port := []
  position : Position := {}
  group_id : Option String := none
  subgraph : Option Sub := none

/-- The top-level IR graph: nodes, edges and params in id-keyed maps. -/
structure Graph (Sub : Type) where
  schema_version : Nat := 2
  paradigm : Paradigm := .FUNCTIONAL
  name : Option String := none
  nodes : Dict String (Node Sub) := Dict.empty
  edges : Dict String Edge := Dict.empty
  params : Dict String Param := Dict.empty

/-- The inner graphs that can sit in a graph nested at most `n` deep: at
level `0` no node owns one. -/
def Nested : Nat → Type
  | 0 => Empty
  | n + 1 => Graph (Nested n)

variable {Sub : Type}

/-! ## Structural validation

`Graph._validate_structure`, run whenever a graph is constructed. Map keys
agree with the ids inside, edges run from existing OUT ports to existing
IN ports, and a `group_id` names a node of the same graph. -/

/-- What the structural validator found wrong, with the data it names. -/
inductive GraphError where
  | node_key (key id : String)
  | param_key (key name : String)
  | edge_key (key id : String)
  | source_node (edge node_id : String)
  | target_node (edge node_id : String)
  | source_port (edge port_id node_id : String)
  | target_port (edge port_id node_id : String)
  | source_direction (edge port_id node_id : String)
  | target_direction (edge port_id node_id : String)
  | group_id (node_id group_id : String)
  deriving DecidableEq, Repr

/-- The `port_direction` lookup: the direction of port `port_id` of node
`node_id`. When a node lists a port id twice the later one counts, as in
the dictionary the source builds. -/
def Graph.port_direction (g : Graph Sub) (r : PortRef) : Option Direction :=
  (g.nodes.get? r.node_id).bind fun node =>
    (node.ports.reverse.find? (·.id = r.port_id)).map (·.direction)

/-- The checks on one edge of the graph, in the order of the source. -/
def Graph.check_edge (g : Graph Sub) (key : String) (e : Edge) :
    Except GraphError Unit := do
  Checks.guard (e.id = key) (.edge_key key e.id)
  Checks.guard (g.nodes.contains e.source.node_id)
    (.source_node e.id e.source.node_id)
  Checks.guard (g.nodes.contains e.target.node_id)
    (.target_node e.id e.target.node_id)
  Checks.guard (g.port_direction e.source).isSome
    (.source_port e.id e.source.port_id e.source.node_id)
  Checks.guard (g.port_direction e.target).isSome
    (.target_port e.id e.target.port_id e.target.node_id)
  Checks.guard (g.port_direction e.source = some .OUT)
    (.source_direction e.id e.source.port_id e.source.node_id)
  Checks.guard (g.port_direction e.target = some .IN)
    (.target_direction e.id e.target.port_id e.target.node_id)

/-- The group check on one node: a `group_id` names a node of the graph. -/
def Graph.check_group (g : Graph Sub) (node_id : String) (node : Node Sub) :
    Except GraphError Unit :=
  match node.group_id with
  | none => .ok ()
  | some gid => Checks.guard (g.nodes.contains gid) (.group_id node_id gid)

/-- `Graph._validate_structure`. -/
def Graph.validate_structure (g : Graph Sub) : Except GraphError Unit := do
  g.nodes.entries.forM fun e => Checks.guard (e.2.id = e.1) (.node_key e.1 e.2.id)
  g.params.entries.forM fun e => Checks.guard (e.2.name = e.1) (.param_key e.1 e.2.name)
  g.edges.entries.forM fun e => g.check_edge e.1 e.2
  g.nodes.entries.forM fun e => g.check_group e.1 e.2

/-- What the structural validator enforces, as a statement about lookups. -/
structure Graph.Valid (g : Graph Sub) : Prop where
  node_id : ∀ {k n}, g.nodes.get? k = some n → n.id = k
  param_name : ∀ {k p}, g.params.get? k = some p → p.name = k
  edge_id : ∀ {k e}, g.edges.get? k = some e → e.id = k
  source_out : ∀ {k e}, g.edges.get? k = some e →
    g.port_direction e.source = some .OUT
  target_in : ∀ {k e}, g.edges.get? k = some e →
    g.port_direction e.target = some .IN
  group : ∀ {k n gid}, g.nodes.get? k = some n → n.group_id = some gid →
    ∃ m, g.nodes.get? gid = some m

theorem Graph.contains_of_port_direction {g : Graph Sub} {r : PortRef} {d : Direction}
    (h : g.port_direction r = some d) : g.nodes.contains r.node_id = true := by
  unfold Graph.port_direction at h
  cases hn : g.nodes.get? r.node_id with
  | none => simp [hn] at h
  | some n => exact (Dict.contains_iff _).mpr ⟨n, hn⟩

theorem Graph.check_edge_eq_ok {g : Graph Sub} {k : String} {e : Edge} :
    g.check_edge k e = .ok () ↔
      e.id = k ∧ g.port_direction e.source = some .OUT ∧
        g.port_direction e.target = some .IN := by
  simp only [Graph.check_edge, Checks.then_eq_ok, Checks.guard_eq_ok,
    decide_eq_true_eq]
  constructor
  · rintro ⟨hid, -, -, -, -, hs, ht⟩
    exact ⟨hid, hs, ht⟩
  · rintro ⟨hid, hs, ht⟩
    exact ⟨hid, contains_of_port_direction hs, contains_of_port_direction ht,
      by simp [hs], by simp [ht], hs, ht⟩

/-- The validator accepts exactly the valid graphs. -/
theorem Graph.validate_structure_eq_ok {g : Graph Sub} :
    g.validate_structure = .ok () ↔ g.Valid := by
  simp only [Graph.validate_structure, Checks.then_eq_ok, Checks.forM_eq_ok,
    Checks.guard_eq_ok, decide_eq_true_eq, Graph.check_edge_eq_ok]
  constructor
  · rintro ⟨hn, hp, he, hg⟩
    refine ⟨fun h => hn _ ((Dict.mem_entries_iff _).mpr h),
      fun h => hp _ ((Dict.mem_entries_iff _).mpr h),
      fun h => (he _ ((Dict.mem_entries_iff _).mpr h)).1,
      fun h => (he _ ((Dict.mem_entries_iff _).mpr h)).2.1,
      fun h => (he _ ((Dict.mem_entries_iff _).mpr h)).2.2, ?_⟩
    intro k n gid h hgid
    have hk := hg _ ((Dict.mem_entries_iff _).mpr h)
    simpa [Graph.check_group, hgid] using hk
  · intro hv
    refine ⟨fun x hx => hv.node_id ((Dict.mem_entries_iff _).mp hx),
      fun x hx => hv.param_name ((Dict.mem_entries_iff _).mp hx), ?_, ?_⟩
    · intro x hx
      have hx := (Dict.mem_entries_iff _).mp hx
      exact ⟨hv.edge_id hx, hv.source_out hx, hv.target_in hx⟩
    · intro x hx
      have hx := (Dict.mem_entries_iff _).mp hx
      cases hgid : x.2.group_id with
      | none => simp [Graph.check_group, hgid]
      | some gid => simpa [Graph.check_group, hgid] using hv.group hx hgid

/-- Equality of graphs as the IR sees it: the same header and params, and
the same node and edge under every id. Map order does not count. -/
structure Graph.Same (g h : Graph Sub) : Prop where
  schema_version : g.schema_version = h.schema_version
  paradigm : g.paradigm = h.paradigm
  name : g.name = h.name
  nodes : ∀ id, g.nodes.get? id = h.nodes.get? id
  edges : ∀ id, g.edges.get? id = h.edges.get? id
  params : ∀ name, g.params.get? name = h.params.get? name

theorem Graph.Same.port_direction {g h : Graph Sub} (s : g.Same h) (r : PortRef) :
    g.port_direction r = h.port_direction r := by
  simp only [Graph.port_direction, s.nodes]

/-- Validity only depends on the lookups. -/
theorem Graph.Same.valid {g h : Graph Sub} (s : g.Same h) (hv : h.Valid) : g.Valid where
  node_id hk := hv.node_id (s.nodes _ ▸ hk)
  param_name hk := hv.param_name (s.params _ ▸ hk)
  edge_id hk := hv.edge_id (s.edges _ ▸ hk)
  source_out hk := by rw [s.port_direction]; exact hv.source_out (s.edges _ ▸ hk)
  target_in hk := by rw [s.port_direction]; exact hv.target_in (s.edges _ ▸ hk)
  group hk hgid := by
    obtain ⟨m, hm⟩ := hv.group (s.nodes _ ▸ hk) hgid
    exact ⟨m, by rw [s.nodes]; exact hm⟩

end EmergentFlow
