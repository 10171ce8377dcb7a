import EmergentFlow.Codegen.Wiring

/-!
# Research — Columns

How one node treats one column, as both directions of the column trace
read it (`research/lineage.py`): which input columns a column comes from,
which node feeds the input table, which columns survive.

`parse` is Python's `ast.parse` of an expression, `none` for a syntax
error. `effects` gives the column effect that the definition registered
under a node type declares, if it does.
-/

namespace EmergentFlow

/-! ## Roles and effects -/

/-- `ColumnRole`. -/
inductive ColumnRole where
  | SOURCE
  | PASSTHROUGH
  | RENAMED
  | DERIVED
  | AGGREGATED
  | ENCODED
  | DROPPED
  | UNKNOWN
  deriving DecidableEq, Repr

/-- `ColumnEffectKind`. -/
inductive ColumnEffectKind where
  | PASSTHROUGH
  | SELECT
  | RENAME
  | DERIVE
  | AGGREGATE
  | ENCODE
  | DROP
  | SOURCE
  | CUSTOM
  | UNKNOWN
  deriving DecidableEq, Repr

/-! ## Expressions -/

/-- A syntax tree as far as the references look at it: names, attributes
and calls; any other node with the nodes below it. -/
inductive PyExpr where
  | name (id : String)
  | attribute (value : PyExpr)
  | call (func : PyExpr) (args : List PyExpr)
  | other (children : List PyExpr)

mutual

/-- `ast.walk`: the tree and everything below it. -/
def PyExpr.walk : PyExpr → List PyExpr
  | .name id => [.name id]
  | .attribute value => .attribute value :: value.walk
  | .call func args => .call func args :: (func.walk ++ PyExpr.walkAll args)
  | .other children => .other children :: PyExpr.walkAll children

def PyExpr.walkAll : List PyExpr → List PyExpr
  | [] => []
  | e :: es => e.walk ++ PyExpr.walkAll es

end

/-- The base of an attribute chain. -/
def PyExpr.base : PyExpr → PyExpr
  | .attribute value => value.base
  | e => e

def PyExpr.id? : PyExpr → Option String
  | .name id => some id
  | _ => none

/-- The name a call excludes: the base of what it calls. -/
def PyExpr.called : PyExpr → Option String
  | .call func _ => func.base.id?
  | _ => none

/-- `sorted` of a set of strings. -/
def sorted_set (names : List String) : List String := names.dedup.insertionSort (· ≤ ·)

/-- `_derive_source_cols`. -/
def derive_source_cols (parse : String → Option PyExpr) (expr : String) : List String :=
  match parse expr with
  | none => []
  | some tree =>
      let excluded := tree.walk.filterMap PyExpr.called
      sorted_set ((tree.walk.filterMap PyExpr.id?).filter (· ∉ excluded))

/-! ## Param values -/

/-- `value.get(key)` of a mapping; nothing of any other value. -/
def ParamValue.field (key : String) : ParamValue → Option ParamValue
  | .mapping items => Dict.lookupL key items
  | _ => Option.none

/-- The string, if the value is one. -/
def ParamValue.as_str : ParamValue → Option String
  | .str s => some s
  | _ => Option.none

/-- The items of a list; none of any other value. -/
def ParamValue.items : Option ParamValue → List ParamValue
  | some (.sequence items) => items
  | _ => []

/-- The references of the string in one field of a mapping. -/
def field_source_cols (parse : String → Option PyExpr) (key : String) (spec : ParamValue) :
    List String :=
  match (spec.field key).bind ParamValue.as_str with
  | some expr => derive_source_cols parse expr
  | none => []

/-- `_derive_spec_source_cols`. -/
def derive_spec_source_cols (parse : String → Option PyExpr) (spec : ParamValue) : List String :=
  sorted_set (field_source_cols parse "expr" spec ++
    (ParamValue.items (spec.field "when")).flatMap (field_source_cols parse "if"))

/-! ## Nodes -/

variable {Sub : Type}

def SELECT_COLUMNS : String := "clean.select_columns"

def DERIVE_COLUMN : String := "clean.derive_column"

/-- The names in the `columns` of a `select_columns` node, when that is a list. -/
def Node.chosen (node : Node Sub) : Option (List String) :=
  match node.param_values.get? "columns" with
  | some (.sequence items) => some (items.filterMap ParamValue.as_str)
  | _ => none

/-- `bool(values.get("drop"))`. -/
def Node.drop (node : Node Sub) : Bool :=
  ((node.param_values.get? "drop").getD .none).truthy

/-- The `columns` of a `derive_column` node. -/
def Node.derive_specs (node : Node Sub) : List ParamValue :=
  ParamValue.items (node.param_values.get? "columns")

/-- The name of a derived column: the string under `name`. -/
def ParamValue.derived_name (spec : ParamValue) : Option String :=
  (spec.field "name").bind ParamValue.as_str

/-- `_incoming_edges`. -/
def Graph.incoming_edges (g : Graph Sub) (node_id : String) : List (String × String × String) :=
  (g.edges.values.filter (·.target.node_id = node_id)).map fun e =>
    (e.source.node_id, e.source.port_id, e.target.port_id)

/-- `_frame_predecessor`. -/
def frame_predecessor (g : Graph Sub) (node : Node Sub) : Option String :=
  match node.in_ports with
  | [] => none
  | port :: _ =>
      match (g.incoming_edges node.id).filter (·.2.2 = port.id), g.incoming_edges node.id with
      | [], [edge] => some edge.1
      | [], _ => none
      | [edge], _ => some edge.1
      | _, _ => none

/-- Does `select_columns` with these names and `drop` keep the column? -/
def selects (names : List String) (drop : Bool) (column : String) : Bool :=
  if drop then column ∉ names else column ∈ names

section Resolve

variable (parse : String → Option PyExpr) (effects : String → Option ColumnEffectKind)

/-- `_resolve_column`: the role of a column and the input columns it comes
from, `none` where that cannot be known statically. -/
def resolve_column (g : Graph Sub) (node : Node Sub) (column : String) :
    Option (ColumnRole × List String) :=
  if node.type = SELECT_COLUMNS then
    match node.chosen with
    | some names => if selects names node.drop column then some (.PASSTHROUGH, [column]) else none
    | none => none
  else if node.type = DERIVE_COLUMN then
    match node.derive_specs.find? (·.derived_name = some column) with
    | some spec => some (.DERIVED, derive_spec_source_cols parse spec)
    | none =>
        if (frame_predecessor g node).isSome then some (.PASSTHROUGH, [column]) else none
  else if effects node.type = some .SOURCE then some (.SOURCE, [])
  else if effects node.type = some .PASSTHROUGH then
    if (frame_predecessor g node).isSome then some (.PASSTHROUGH, [column]) else none
  else if (g.incoming_edges node.id).isEmpty then some (.SOURCE, [])
  else none

end Resolve

/-- `_surviving_columns`. -/
def surviving_columns (node : Node Sub) (incoming : List String) : List String :=
  if node.type = SELECT_COLUMNS then
    match node.chosen with
    | some names => incoming.filter (selects names node.drop)
    | none => incoming
  else incoming

/-! ## Lemmas -/

theorem mem_sorted_set {names : List String} {name : String} :
    name ∈ sorted_set names ↔ name ∈ names := by
  rw [sorted_set, List.mem_insertionSort, List.mem_dedup]

theorem Graph.mem_incoming_edges {g : Graph Sub} {n a p q : String} :
    (a, p, q) ∈ g.incoming_edges n ↔ ∃ id e, g.edges.get? id = some e ∧ e.target.node_id = n ∧
      e.source = ⟨a, p⟩ ∧ e.target.port_id = q := by
  simp only [Graph.incoming_edges, List.mem_map, List.mem_filter, Dict.mem_values_iff,
    decide_eq_true_eq, Prod.mk.injEq]
  constructor
  · rintro ⟨e, ⟨⟨id, he⟩, htarget⟩, rfl, rfl, rfl⟩
    exact ⟨id, e, he, htarget, rfl, rfl⟩
  · rintro ⟨id, e, he, htarget, hsource, rfl⟩
    exact ⟨e, ⟨⟨id, he⟩, htarget⟩, by rw [hsource], by rw [hsource], rfl⟩

/-- The incoming edges are what feeds the node. -/
theorem Graph.feeds_iff_incoming {g : Graph Sub} {a n : String} :
    g.Feeds a n ↔ ∃ ports, (a, ports) ∈ g.incoming_edges n := by
  rw [Graph.feeds_iff]
  constructor
  · rintro ⟨id, e, he, rfl, rfl⟩
    exact ⟨(e.source.port_id, e.target.port_id),
      Graph.mem_incoming_edges.mpr ⟨id, e, he, rfl, rfl, rfl⟩⟩
  · rintro ⟨⟨p, q⟩, hmem⟩
    obtain ⟨id, e, he, htarget, hsource, -⟩ := Graph.mem_incoming_edges.mp hmem
    exact ⟨id, e, he, by rw [hsource], htarget⟩

/-- The frame predecessor feeds the node. -/
theorem feeds_of_frame_predecessor {g : Graph Sub} {node : Node Sub} {m : String}
    (h : frame_predecessor g node = some m) : g.Feeds m node.id := by
  apply Graph.feeds_iff_incoming.mpr
  unfold frame_predecessor at h
  split at h
  · cases h
  · rename_i port _ _
    split at h
    · rename_i edge _ hall
      cases h
      exact ⟨edge.2, hall ▸ List.mem_singleton_self edge⟩
    · cases h
    · rename_i edge hone
      cases h
      have hmem : edge ∈ (g.incoming_edges node.id).filter (·.2.2 = port.id) :=
        hone ▸ List.mem_singleton_self edge
      exact ⟨edge.2, List.mem_of_mem_filter hmem⟩
    · cases h

/-- Does the node keep an incoming column? -/
def Node.keeps (node : Node Sub) (column : String) : Prop :=
  column ∈ surviving_columns node [column]

/-- Whether a column survives does not depend on the others. -/
theorem mem_surviving_columns {node : Node Sub} {incoming : List String} {column : String} :
    column ∈ surviving_columns node incoming ↔ column ∈ incoming ∧ node.keeps column := by
  simp only [Node.keeps, surviving_columns]
  split
  · split <;> simp
  · simp

/-- A column that comes from columns of an input survives. -/
theorem keeps_of_resolve {parse : String → Option PyExpr}
    {effects : String → Option ColumnEffectKind} {g : Graph Sub} {node : Node Sub}
    {column : String} {role : ColumnRole} {cols : List String}
    (h : resolve_column parse effects g node column = some (role, cols)) : node.keeps column := by
  simp only [Node.keeps, surviving_columns]
  by_cases htype : node.type = SELECT_COLUMNS
  · rw [resolve_column, if_pos htype] at h
    rw [if_pos htype]
    cases hchosen : node.chosen with
    | none => simp [hchosen] at h
    | some names =>
        simp only [hchosen] at h ⊢
        split at h
        · rename_i hselects
          exact List.mem_filter.mpr ⟨List.mem_singleton_self _, hselects⟩
        · cases h
  · rw [if_neg htype]
    exact List.mem_singleton_self _

end EmergentFlow
