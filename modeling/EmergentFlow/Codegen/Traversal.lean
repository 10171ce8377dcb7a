import EmergentFlow.Lib.KahnOrder
import EmergentFlow.Codegen.Wiring

/-!
# Codegen — Traversal

What `topological_sort` (`codegen/traversal.py`) promises of every graph:
it finds an order exactly when there is one, the order is the
lexicographically least, it does not depend on how the nodes and edges were
inserted, and a failure names what lies on or downstream of a cycle.
-/

namespace EmergentFlow

open Relation

variable {Sub : Type}

/-- The order lists every node once, each edge's source before its target. -/
structure Graph.Topological (g : Graph Sub) (order : List String) : Prop where
  perm : order.Perm g.nodes.keys
  forward : ∀ id e, g.edges.get? id = some e →
    order.idxOf e.source.node_id < order.idxOf e.target.node_id

/-- The node lies on a cycle or downstream of one. -/
def Graph.OnOrBehindCycle (g : Graph Sub) (id : String) : Prop :=
  id ∈ g.nodes.keys ∧ ∃ c, TransGen g.Feeds c c ∧ ReflTransGen g.Feeds c id

theorem Graph.topological_iff {g : Graph Sub} (hv : g.Valid) {order : List String} :
    g.Topological order ↔ order.Perm g.nodes.keys ∧ Kahn.Respects g.links order := by
  constructor
  · rintro ⟨hperm, hforward⟩
    refine ⟨hperm, ?_⟩
    rintro pre n post rfl ⟨a, b⟩ hedge rfl
    obtain ⟨id, e, he, rfl, rfl⟩ := Graph.feeds_iff.mp hedge
    have hlt := hforward id e he
    have hnodup := hperm.nodup_iff.mpr g.nodes.nodup_keys
    have hnot : e.target.node_id ∉ pre := by
      intro hmem
      rw [List.nodup_append] at hnodup
      exact hnodup.2.2 _ hmem _ List.mem_cons_self rfl
    rw [List.idxOf_append_of_notMem hnot, List.idxOf_cons_self, Nat.add_zero] at hlt
    by_contra hsource
    rw [List.idxOf_append_of_notMem hsource] at hlt
    omega
  · rintro ⟨hperm, hrespects⟩
    refine ⟨hperm, fun id e he => ?_⟩
    have hedge : g.Feeds e.source.node_id e.target.node_id :=
      Graph.feeds_iff.mpr ⟨id, e, he, rfl, rfl⟩
    exact hrespects.idxOf_lt hedge (hperm.mem_iff.mpr (hv.mem_keys hedge).2)

theorem topological_sort_eq (g : Graph Sub) : topological_sort g =
    match Kahn.sort Kahn.atMost g.nodes.keys g.links with
    | .ok order => .ok order
    | .error remaining => .error (.cycle (remaining.insertionSort (· ≤ ·))) := rfl

/-- What the sort answers, read off the loop. -/
theorem topological_sort_cases {g : Graph Sub} (hv : g.Valid) :
    (∃ order, topological_sort g = .ok order ∧ g.Topological order ∧
      Kahn.Least g.nodes.keys g.links order) ∨
    (∃ names, topological_sort g = .error (.cycle names) ∧ names.SortedLE ∧ names.Nodup ∧
      ∀ id, id ∈ names ↔ g.OnOrBehindCycle id) := by
  have htargets : ∀ e ∈ g.links, e.2 ∈ g.nodes.keys := fun e he => (hv.mem_keys he).2
  have hsources : ∀ e ∈ g.links, e.1 ∈ g.nodes.keys := fun e he => (hv.mem_keys he).1
  rw [topological_sort_eq]
  cases hsort : Kahn.sort Kahn.atMost g.nodes.keys g.links with
  | ok order =>
      refine .inl ⟨order, rfl, ?_, Kahn.sort_least g.nodes.nodup_keys htargets hsort⟩
      exact (Graph.topological_iff hv).mpr (Kahn.sort_eq_ok g.nodes.nodup_keys htargets hsort)
  | error remaining =>
      refine .inr ⟨_, rfl, List.sortedLE_insertionSort, ?_, fun id => ?_⟩
      · exact (List.perm_insertionSort _ _).nodup_iff.mpr
          (Kahn.sort_error_nodup g.nodes.nodup_keys hsort)
      · rw [List.mem_insertionSort]
        exact Kahn.mem_sort_error g.nodes.nodup_keys htargets hsources hsort

theorem topological_sort_ok_iff {g : Graph Sub} (hv : g.Valid) :
    (∃ order, topological_sort g = .ok order) ↔ Closure.Acyclic g.Feeds := by
  have hiff : (∃ order, Kahn.sort Kahn.atMost g.nodes.keys g.links = .ok order) ↔
      Closure.Acyclic (Kahn.Edge g.links) :=
    Kahn.sort_eq_ok_iff g.nodes.nodup_keys (fun e he => (hv.mem_keys he).2)
      fun e he => (hv.mem_keys he).1
  rw [topological_sort_eq]
  constructor
  · rintro ⟨order, h⟩
    cases hsort : Kahn.sort Kahn.atMost g.nodes.keys g.links with
    | ok order => exact hiff.mp ⟨order, hsort⟩
    | error remaining =>
        rw [hsort] at h
        cases h
  · intro hacyclic
    obtain ⟨order, hsort⟩ := hiff.mpr hacyclic
    rw [hsort]
    exact ⟨order, rfl⟩

/-! ## Insertion order -/

theorem Graph.Same.keys {g g' : Graph Sub} (s : g'.Same g) : g'.nodes.keys.Perm g.nodes.keys := by
  rw [List.perm_ext_iff_of_nodup g'.nodes.nodup_keys g.nodes.nodup_keys]
  intro id
  rw [Dict.mem_keys_iff, Dict.mem_keys_iff, s.nodes]

theorem Graph.Same.feeds {g g' : Graph Sub} (s : g'.Same g) : g'.Feeds = g.Feeds := by
  funext a b
  simp only [Graph.feeds_iff, s.edges]

/-- The same nodes and edges, inserted in another order, sort the same. -/
theorem topological_sort_same {g g' : Graph Sub} (hv : g.Valid) (s : g'.Same g) :
    topological_sort g' = topological_sort g := by
  have hv' := s.valid hv
  have hlinks : ∀ e, e ∈ g'.links ↔ e ∈ g.links := fun e => iff_of_eq (congrFun₂ s.feeds e.1 e.2)
  rcases topological_sort_cases hv with ⟨order, h, htop, hleast⟩ | ⟨names, h, hsorted, hnodup, hmem⟩
  · rcases topological_sort_cases hv' with ⟨order', h', htop', hleast'⟩ | ⟨names', h', -⟩
    · obtain ⟨hperm, hrespects⟩ := (Graph.topological_iff hv).mp htop
      obtain ⟨hperm', hrespects'⟩ := (Graph.topological_iff hv').mp htop'
      rw [h, h', hleast.unique hleast' hperm hperm' g.nodes.nodup_keys s.keys hlinks hrespects
        hrespects']
    · have hacyclic := (topological_sort_ok_iff hv).mp ⟨order, h⟩
      rw [← s.feeds, ← topological_sort_ok_iff hv', h'] at hacyclic
      obtain ⟨order', h⟩ := hacyclic
      cases h
  · rcases topological_sort_cases hv' with ⟨order', h', -⟩ | ⟨names', h', hsorted', hnodup', hmem'⟩
    · have hacyclic := (topological_sort_ok_iff hv').mp ⟨order', h'⟩
      rw [s.feeds, ← topological_sort_ok_iff hv, h] at hacyclic
      obtain ⟨order, h⟩ := hacyclic
      cases h
    · have hsame : ∀ id, id ∈ names' ↔ id ∈ names := by
        intro id
        rw [hmem, hmem', Graph.OnOrBehindCycle, Graph.OnOrBehindCycle, s.feeds, s.keys.mem_iff]
      rw [h, h', ((List.perm_ext_iff_of_nodup hnodup' hnodup).mpr hsame).eq_of_sortedLE
        hsorted' hsorted]

/-! ## The laws -/

/-- The sort finds the least order of every graph without a cycle, whatever
the insertion order, and names what lies on or behind the cycles otherwise. -/
theorem topological_sort_laws {g : Graph Sub} (hv : g.Valid) :
    ((∃ order, topological_sort g = .ok order) ↔ Closure.Acyclic g.Feeds) ∧
      (∀ order, topological_sort g = .ok order → g.Topological order ∧
        ∀ order', g.Topological order' → order ≤ order') ∧
      (∀ g' : Graph Sub, g'.Same g → topological_sort g' = topological_sort g) ∧
      ∀ e, topological_sort g = .error e →
        ∃ names, e = .cycle names ∧ ∀ id, id ∈ names ↔ g.OnOrBehindCycle id := by
  refine ⟨topological_sort_ok_iff hv, ?_, fun g' s => topological_sort_same hv s, ?_⟩
  · intro order hok
    rcases topological_sort_cases hv with ⟨order', h, htop, hleast⟩ | ⟨names, h, -⟩
    · cases hok.symm.trans h
      refine ⟨htop, fun order' htop' => ?_⟩
      obtain ⟨hperm', hrespects'⟩ := (Graph.topological_iff hv).mp htop'
      exact hleast.le htop.perm hperm' g.nodes.nodup_keys hrespects'
    · cases hok.symm.trans h
  · intro e herror
    rcases topological_sort_cases hv with ⟨order, h, -⟩ | ⟨names, h, -, -, hmem⟩
    · cases herror.symm.trans h
    · cases herror.symm.trans h
      exact ⟨names, rfl, hmem⟩

/-- Node `c` feeds `b` and, twice, `a`. -/
def fan_out : Graph Empty where
  nodes := Dict.ofList [
    ("b", { id := "b", type := "sink", ports := [{ id := "in", name := "in", direction := .IN }] }),
    ("a", { id := "a", type := "sink", ports := [{ id := "in", name := "in", direction := .IN }] }),
    ("c", { id := "c", type := "load", ports := [{ id := "out", name := "out", direction := .OUT }] })]
  edges := Dict.ofList [
    ("e1", { id := "e1", source := ⟨"c", "out"⟩, target := ⟨"b", "in"⟩ }),
    ("e2", { id := "e2", source := ⟨"c", "out"⟩, target := ⟨"a", "in"⟩ }),
    ("e3", { id := "e3", source := ⟨"c", "out"⟩, target := ⟨"a", "in"⟩ })]

theorem topological_sort_fan_out : topological_sort fan_out = .ok ["c", "a", "b"] ∧
    fan_out.Topological ["c", "a", "b"] ∧
      ∀ order, fan_out.Topological order → ["c", "a", "b"] ≤ order :=
  ⟨rfl, (topological_sort_laws (Graph.validate_structure_eq_ok.mp rfl)).2.1 _ rfl⟩

end EmergentFlow
