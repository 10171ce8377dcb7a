import EmergentFlow.Lib.Worklist
import EmergentFlow.Ir.Graph

/-!
# Validity — Traversal

The topology helpers of the validity rules (`validity/traversal.py`):
reachability over the edges of all scopes of a graph, merged by node id.
-/

namespace EmergentFlow

variable {Sub : Type}

/-! ## The edges of all scopes -/

/-- `all_edges` at one level: the edges of the graph, then those of the
subgraphs of its nodes. -/
def Graph.all_edges_with (sub_edges : Sub → List Edge) (g : Graph Sub) : List Edge :=
  g.edges.values ++ g.nodes.values.flatMap fun node =>
    match node.subgraph with
    | none => []
    | some sub => sub_edges sub

/-- `all_edges`. -/
def all_edges : (n : Nat) → Graph (Nested n) → List Edge
  | 0 => Graph.all_edges_with Empty.elim
  | n + 1 => Graph.all_edges_with (all_edges n)

theorem mem_all_edges_of_mem {n : Nat} {g : Graph (Nested n)} {e : Edge}
    (h : e ∈ g.edges.values) : e ∈ all_edges n g := by
  cases n <;> exact List.mem_append_left _ h

/-! ## Adjacency -/

/-- Neighbours by node id. -/
abbrev Neighbours := Dict String (List String)

/-- `neighbours.get(id, set())`. -/
def Neighbours.of (adj : Neighbours) (id : String) : List String := (adj.get? id).getD []

/-- `adj.setdefault(a, set()).add(b)`. -/
def Neighbours.add (adj : Neighbours) (a b : String) : Neighbours :=
  adj.set a (if b ∈ adj.of a then adj.of a else adj.of a ++ [b])

/-- `_adjacency`: the forward and the reverse map. -/
def adjacency (edges : List Edge) : Neighbours × Neighbours :=
  edges.foldl (fun adj e => (adj.1.add e.source.node_id e.target.node_id,
    adj.2.add e.target.node_id e.source.node_id)) (Dict.empty, Dict.empty)

theorem Neighbours.mem_add {adj : Neighbours} {a b x y : String} :
    y ∈ (adj.add a b).of x ↔ (x = a ∧ y = b) ∨ y ∈ adj.of x := by
  by_cases hx : x = a
  · subst hx
    have hof : (adj.add x b).of x = if b ∈ adj.of x then adj.of x else adj.of x ++ [b] := by
      simp [Neighbours.of, Neighbours.add]
    rw [hof]
    split
    · rename_i hb
      constructor
      · exact .inr
      · rintro (⟨-, rfl⟩ | h)
        · exact hb
        · exact h
    · simp only [List.mem_append, List.mem_singleton, true_and]
      exact or_comm
  · have hof : (adj.add a b).of x = adj.of x := by
      simp [Neighbours.of, Neighbours.add, Dict.get?_set_ne _ _ (Ne.symm hx)]
    simp [hof, hx]

/-- The two maps hold exactly the edges. -/
theorem mem_adjacency {edges : List Edge} {a b : String} :
    (b ∈ (adjacency edges).1.of a ↔
        ∃ e ∈ edges, e.source.node_id = a ∧ e.target.node_id = b) ∧
      (a ∈ (adjacency edges).2.of b ↔
        ∃ e ∈ edges, e.source.node_id = a ∧ e.target.node_id = b) := by
  have hfold : ∀ (l : List Edge) (adj : Neighbours × Neighbours),
      (b ∈ (l.foldl (fun adj e => (adj.1.add e.source.node_id e.target.node_id,
          adj.2.add e.target.node_id e.source.node_id)) adj).1.of a ↔
        (∃ e ∈ l, e.source.node_id = a ∧ e.target.node_id = b) ∨ b ∈ adj.1.of a) ∧
      (a ∈ (l.foldl (fun adj e => (adj.1.add e.source.node_id e.target.node_id,
          adj.2.add e.target.node_id e.source.node_id)) adj).2.of b ↔
        (∃ e ∈ l, e.source.node_id = a ∧ e.target.node_id = b) ∨ a ∈ adj.2.of b) := by
    intro l
    induction l with
    | nil => simp
    | cons e l ih =>
        intro adj
        obtain ⟨hfwd, hrev⟩ := ih (adj.1.add e.source.node_id e.target.node_id,
          adj.2.add e.target.node_id e.source.node_id)
        rw [List.foldl_cons, hfwd, hrev, Neighbours.mem_add, Neighbours.mem_add]
        simp only [List.mem_cons, exists_eq_or_imp]
        grind
  obtain ⟨hfwd, hrev⟩ := hfold edges (Dict.empty, Dict.empty)
  simpa [adjacency, Neighbours.of] using And.intro hfwd hrev

/-! ## Reachability -/

/-- Everything a path leads to. The fuel is one step for every push. -/
def Neighbours.closure (adj : Neighbours) (id : String) : List String :=
  Worklist.reach adj.of ((adj.of id).length + (adj.keys.map fun a => (adj.of a).length).sum) id

/-- `upstream`. -/
def upstream (n : Nat) (g : Graph (Nested n)) (node_id : String) : List String :=
  (adjacency (all_edges n g)).2.closure node_id

/-- `downstream`. -/
def downstream (n : Nat) (g : Graph (Nested n)) (node_id : String) : List String :=
  (adjacency (all_edges n g)).1.closure node_id

/-- `reaches`. -/
def reaches (n : Nat) (g : Graph (Nested n)) (source target : String) : Bool :=
  target ∈ downstream n g source

/-- An edge of some scope runs between nodes with these ids. -/
def Joined (n : Nat) (g : Graph (Nested n)) (a b : String) : Prop :=
  ∃ e ∈ all_edges n g, e.source.node_id = a ∧ e.target.node_id = b

theorem Neighbours.mem_closure {adj : Neighbours} {a b : String} :
    b ∈ adj.closure a ↔ Relation.TransGen (Worklist.Step adj.of) a b := by
  apply Worklist.mem_reach_iff adj.nodup_keys _ le_rfl
  intro x hx
  rw [Dict.mem_keys_iff]
  cases hget : adj.get? x with
  | none => simp [Neighbours.of, hget] at hx
  | some l => exact ⟨l, rfl⟩

/-- `reaches` follows the paths of the merged edges. -/
theorem reaches_iff {n : Nat} {g : Graph (Nested n)} {a b : String} :
    reaches n g a b = true ↔ Relation.TransGen (Joined n g) a b := by
  have hstep : Worklist.Step (adjacency (all_edges n g)).1.of = Joined n g := by
    funext x y
    exact propext mem_adjacency.1
  rw [reaches, decide_eq_true_eq, downstream, Neighbours.mem_closure, hstep]

/-- The two directions agree. -/
theorem mem_upstream_iff {n : Nat} {g : Graph (Nested n)} {a b : String} :
    a ∈ upstream n g b ↔ reaches n g a b = true := by
  have hstep : Worklist.Step (adjacency (all_edges n g)).2.of = Function.swap (Joined n g) := by
    funext x y
    exact propext mem_adjacency.2
  rw [upstream, Neighbours.mem_closure, hstep, Relation.transGen_swap, reaches_iff]

end EmergentFlow
