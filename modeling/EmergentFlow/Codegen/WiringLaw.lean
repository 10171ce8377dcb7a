import Mathlib.Data.Prod.Lex
import EmergentFlow.Codegen.Wiring

/-!
# Codegen — Wiring Law

What the wiring map says of a graph (`WiringMap` and `build_wiring_map` of `codegen/wiring.py`).
The consumers of an OUT port and the sources of an IN port are two readings of the edges, each
with its multiplicity. They agree as long as no node lists the id of a fed IN port twice: such
a port has two bindings, so that `consumers` counts each of its edges twice, and `upstream`,
which looks at the last binding only, counts them once.
-/

namespace EmergentFlow

variable {Sub : Type}

/-! ## When the map is built -/

/-- An IN port that takes one edge is fed by more. -/
def Graph.FedTwice (g : Graph Sub) : Prop :=
  ∃ node ∈ g.sorted_nodes, ∃ port ∈ node.in_ports, port.cardinality = .ONE ∧
    1 < (g.incoming ⟨node.id, port.id⟩).length

theorem build_wiring_map_raises (g : Graph Sub) :
    Checks.RaisesOnly (fun e => ∃ id name k, e = .cardinality id name k) (build_wiring_map g) := by
  refine (Checks.RaisesOnly.mapM fun p _ => ?_).bind fun _ _ => .ok
  rw [Graph.bind_port]
  split
  · exact .error ⟨_, _, _, rfl⟩
  · exact .ok

theorem build_wiring_map_of_cardinality {g : Graph Sub}
    (h : ∀ node ∈ g.sorted_nodes, ∀ port ∈ node.in_ports,
      port.cardinality = .ONE → (g.incoming ⟨node.id, port.id⟩).length ≤ 1) :
    ∃ w, build_wiring_map g = .ok w := by
  have hports : ∀ p ∈ g.sorted_nodes.flatMap fun node => node.in_ports.map (node, ·),
      ∃ b, g.bind_port p.1 p.2 = .ok b := by
    intro p hp
    obtain ⟨node, hnode, hp⟩ := List.mem_flatMap.mp hp
    obtain ⟨port, hport, rfl⟩ := List.mem_map.mp hp
    refine ⟨_, Graph.bind_port_eq_ok.mpr ⟨?_, rfl⟩⟩
    rw [Graph.length_sources]
    exact h node hnode port hport
  obtain ⟨bindings, hbindings⟩ := Checks.mapM_exists hports
  exact ⟨⟨bindings⟩, Checks.bind_eq_ok.mpr ⟨bindings, hbindings, rfl⟩⟩

theorem build_wiring_map_ok_iff {g : Graph Sub} :
    (∃ w, build_wiring_map g = .ok w) ↔ ¬ g.FedTwice := by
  constructor
  · rintro ⟨w, hw⟩ ⟨node, hnode, port, hport, hone, htwice⟩
    obtain ⟨id, hid⟩ := Graph.mem_sorted_nodes.mp hnode
    have hle := (build_wiring_map_eq_ok hw hid hport).2 hone
    rw [Graph.length_sources] at hle
    omega
  · intro hnot
    refine build_wiring_map_of_cardinality fun node hnode port hport hone => ?_
    by_contra hlt
    exact hnot ⟨node, hnode, port, hport, hone, by omega⟩

/-! ## The bindings -/

/-- Every IN port of the graph, as often as its node lists it. -/
def Graph.in_targets (g : Graph Sub) : List PortRef :=
  g.sorted_nodes.flatMap fun node => node.in_ports.map fun port => ⟨node.id, port.id⟩

/-- There is one binding for each IN port, in the order of the nodes and their ports. -/
theorem bindings_eq {g : Graph Sub} {w : WiringMap} (h : build_wiring_map g = .ok w) :
    w.bindings = g.in_targets.map fun target => ⟨target, g.sources target⟩ := by
  obtain ⟨bindings, hbindings, hw⟩ := Checks.bind_eq_ok.mp h
  obtain rfl : ⟨bindings⟩ = w := by simpa [pure, Except.pure] using hw
  have hmap := ((Checks.mapM_iff fun _ _ => Graph.bind_port_eq_ok).mp hbindings).2
  rw [hmap, Graph.in_targets, List.map_flatMap, List.map_flatMap]
  simp only [List.map_map]
  rfl

/-- The last binding of an IN port has the same sources as every other. -/
theorem upstream_eq {g : Graph Sub} {w : WiringMap} (h : build_wiring_map g = .ok w)
    (target : PortRef) :
    w.upstream target = if target ∈ g.in_targets then some (g.sources target) else none := by
  rw [WiringMap.upstream, bindings_eq h, ← List.map_reverse, List.find?_map, Option.map_map]
  have hfound : g.in_targets.reverse.find? (fun t => decide (t = target)) =
      if target ∈ g.in_targets then some target else none := by
    split
    · next hmem =>
        have hsome : (g.in_targets.reverse.find? fun t => decide (t = target)).isSome = true := by
          rw [List.find?_isSome]
          exact ⟨target, List.mem_reverse.mpr hmem, decide_eq_true rfl⟩
        obtain ⟨t, ht⟩ := Option.isSome_iff_exists.mp hsome
        have heq : t = target := by simpa using List.find?_some ht
        rw [ht, heq]
    · next hmem =>
        rw [List.find?_eq_none]
        intro t ht heq
        exact hmem (of_decide_eq_true heq ▸ List.mem_reverse.mp ht)
  show (g.in_targets.reverse.find? fun t => decide (t = target)).map g.sources = _
  rw [hfound]
  split <;> rfl

/-- An edge counts once for each binding of its target. -/
theorem count_consumers {g : Graph Sub} {w : WiringMap} (h : build_wiring_map g = .ok w)
    (source target : PortRef) :
    (w.consumers source).count target =
      g.in_targets.count target * (g.sources target).count source := by
  rw [WiringMap.consumers, bindings_eq h]
  induction g.in_targets with
  | nil => simp
  | cons t targets ih =>
      have hfirst : (((g.sources t).filter (· = source)).map fun _ => t).count target =
          if t = target then (g.sources target).count source else 0 := by
        rw [List.map_const']
        by_cases ht : t = target
        · subst ht
          rw [if_pos rfl, List.count_replicate_self, ← List.countP_eq_length_filter]
          rfl
        · rw [if_neg ht, List.count_replicate, if_neg (by simpa using ht)]
      rw [List.map_cons, List.flatMap_cons, List.count_append, ih, List.count_cons]
      show (((g.sources t).filter (· = source)).map fun _ => t).count target + _ = _
      rw [hfirst]
      by_cases ht : t = target
      · rw [if_pos ht, if_pos (by simpa using ht), Nat.add_mul, Nat.one_mul, Nat.add_comm]
      · rw [if_neg ht, if_neg (by simpa using ht), Nat.zero_add, Nat.add_zero]

/-- The IN port that an edge leads to is bound. -/
theorem Graph.Valid.mem_in_targets {g : Graph Sub} (hv : g.Valid) {id : String} {e : Edge}
    (he : g.edges.get? id = some e) : e.target ∈ g.in_targets := by
  have hin := hv.target_in he
  rw [Graph.port_direction] at hin
  obtain ⟨node, hnode, hdir⟩ := Option.bind_eq_some_iff.mp hin
  obtain ⟨port, hport, hdirection⟩ := Option.map_eq_some_iff.mp hdir
  refine List.mem_flatMap.mpr ⟨node, Graph.mem_sorted_nodes.mpr ⟨_, hnode⟩,
    List.mem_map.mpr ⟨port, ?_, ?_⟩⟩
  · exact Node.mem_in_ports.mpr ⟨List.mem_reverse.mp (List.mem_of_find?_eq_some hport), hdirection⟩
  · rw [hv.node_id hnode, show port.id = e.target.port_id by simpa using List.find?_some hport]

/-- The consumers of an OUT port are what its edges lead to. -/
theorem mem_consumers_iff {g : Graph Sub} (hv : g.Valid) {w : WiringMap}
    (h : build_wiring_map g = .ok w) {source target : PortRef} :
    target ∈ w.consumers source ↔
      ∃ id e, g.edges.get? id = some e ∧ e.target = target ∧ e.source = source := by
  rw [← Graph.mem_sources, ← List.count_pos_iff, count_consumers h]
  constructor
  · intro hpos
    exact List.count_pos_iff.mp (Nat.pos_of_mul_pos_left hpos)
  · intro hsource
    obtain ⟨id, e, he, htarget, -⟩ := Graph.mem_sources.mp hsource
    exact Nat.mul_pos (List.count_pos_iff.mpr (htarget ▸ hv.mem_in_targets he))
      (List.count_pos_iff.mpr hsource)

/-! ## The order of the sources -/

/-- The key of the order is a pair of texts. -/
theorem PortRef.le_iff {a b : PortRef} : PortRef.le a b = true ↔
    toLex (a.node_id, a.port_id) ≤ toLex (b.node_id, b.port_id) := by
  rw [Prod.Lex.toLex_le_toLex, PortRef.le, Bool.or_eq_true, Bool.and_eq_true]
  simp only [decide_eq_true_eq]

theorem PortRef.le_antisymm {a b : PortRef} (hab : PortRef.le a b = true)
    (hba : PortRef.le b a = true) : a = b := by
  have hkey := toLex.injective ((PortRef.le_iff.mp hab).antisymm (PortRef.le_iff.mp hba))
  obtain ⟨hnode, hport⟩ := Prod.mk.inj hkey
  cases a
  cases b
  exact congrArg₂ PortRef.mk hnode hport

theorem Graph.sources_pairwise (g : Graph Sub) (target : PortRef) :
    (g.sources target).Pairwise fun a b => PortRef.le a b = true := by
  have htotal : Std.Total fun a b : PortRef => PortRef.le a b = true :=
    ⟨fun a b => by simpa only [PortRef.le_iff] using le_total (toLex (a.node_id, a.port_id)) _⟩
  have htrans : IsTrans PortRef fun a b => PortRef.le a b = true :=
    ⟨fun a b c => by simpa only [PortRef.le_iff] using le_trans⟩
  exact List.pairwise_insertionSort _ _

/-- The order in which the edges were inserted leaves no trace. -/
theorem Graph.sources_congr {g : Graph Sub} {edges : Dict String Edge}
    (h : edges.entries.Perm g.edges.entries) (target : PortRef) :
    ({ g with edges }.incoming target).Perm (g.incoming target) ∧
      { g with edges }.sources target = g.sources target := by
  have hincoming : ({ g with edges }.incoming target).Perm (g.incoming target) :=
    ((h.map Prod.snd).filter _).map _
  have hsources : ({ g with edges }.sources target).Perm (g.sources target) :=
    (List.perm_insertionSort _ _).trans (hincoming.trans (List.perm_insertionSort _ _).symm)
  refine ⟨hincoming, hsources.eq_of_pairwise ?_ (sources_pairwise _ _) (sources_pairwise _ _)⟩
  exact fun a b _ _ => PortRef.le_antisymm

theorem build_wiring_map_congr {g : Graph Sub} {edges : Dict String Edge}
    (h : edges.entries.Perm g.edges.entries) :
    build_wiring_map { g with edges } = build_wiring_map g := by
  have hbind : { g with edges }.bind_port = g.bind_port := by
    funext node port
    obtain ⟨hincoming, hsources⟩ := Graph.sources_congr h ⟨node.id, port.id⟩
    simp only [Graph.bind_port, hincoming.length_eq, hsources]
  simp only [build_wiring_map, hbind]
  rfl

/-! ## The law -/

/-- A port that is fed is listed once: no node has two IN ports under the id of a fed one. -/
def Graph.FedOnce (g : Graph Sub) : Prop :=
  ∀ target ∈ g.in_targets, g.incoming target ≠ [] → g.in_targets.count target = 1

/-- What a wiring map is to be of the edges of its graph, and when there is one. -/
structure WiringLaw (g : Graph Sub) : Prop where
  raises : (∃ e, build_wiring_map g = .error e) ↔ g.FedTwice
  error : ∀ e, build_wiring_map g = .error e → ∃ id name k, e = .cardinality id name k
  duality : ∀ w, build_wiring_map g = .ok w → ∀ source target sources,
    w.upstream target = some sources →
      (w.consumers source).count target = sources.count source
  ordered : ∀ w, build_wiring_map g = .ok w → ∀ target sources,
    w.upstream target = some sources →
      sources.Perm (g.incoming target) ∧ sources.Pairwise fun a b => PortRef.le a b = true
  single : ∀ w, build_wiring_map g = .ok w → ∀ node ∈ g.sorted_nodes, ∀ port ∈ node.in_ports,
    port.cardinality = .ONE → ∀ sources, w.upstream ⟨node.id, port.id⟩ = some sources →
      sources.length ≤ 1
  insertion : ∀ edges : Dict String Edge, edges.entries.Perm g.edges.entries →
    build_wiring_map { g with edges } = build_wiring_map g

/-- For a graph whose map is built, the two readings agree just when fed ports are listed once. -/
theorem duality_iff {g : Graph Sub} {w : WiringMap} (h : build_wiring_map g = .ok w) :
    (∀ source target sources, w.upstream target = some sources →
      (w.consumers source).count target = sources.count source) ↔ g.FedOnce := by
  constructor
  · intro hdual target hmem hfed
    have hup : w.upstream target = some (g.sources target) := by rw [upstream_eq h, if_pos hmem]
    -- one of the edges into the port is enough to tell how often the port is listed
    obtain ⟨source, hsource⟩ := List.exists_mem_of_ne_nil _ hfed
    have hpos : 0 < (g.sources target).count source :=
      List.count_pos_iff.mpr ((List.perm_insertionSort _ _).mem_iff.mpr hsource)
    have hcount := hdual source target _ hup
    rw [count_consumers h] at hcount
    exact Nat.eq_of_mul_eq_mul_right hpos (hcount.trans (Nat.one_mul _).symm)
  · intro honce source target sources hup
    rw [upstream_eq h] at hup
    split at hup
    · next hmem =>
        obtain rfl := Option.some.inj hup
        rw [count_consumers h]
        by_cases hfed : g.incoming target = []
        · have hnone : g.sources target = [] := by rw [Graph.sources, hfed, List.insertionSort_nil]
          rw [hnone, List.count_nil, Nat.mul_zero]
        · rw [honce target hmem hfed, Nat.one_mul]
    · cases hup

/-- The law holds of a graph just when its map is not built or its fed ports are listed once. -/
theorem wiring_law_iff (g : Graph Sub) : WiringLaw g ↔ g.FedTwice ∨ g.FedOnce := by
  constructor
  · intro law
    by_cases htwice : g.FedTwice
    · exact .inl htwice
    · obtain ⟨w, hw⟩ := build_wiring_map_ok_iff.mpr htwice
      exact .inr ((duality_iff hw).mp (law.duality w hw))
  · intro hcond
    refine ⟨?_, fun e he => build_wiring_map_raises g e he, fun w hw => ?_, fun w hw => ?_,
      fun w hw => ?_, fun edges => build_wiring_map_congr⟩
    · rw [← not_iff_not, ← build_wiring_map_ok_iff]
      cases build_wiring_map g <;> simp
    · have hnot : ¬ g.FedTwice := build_wiring_map_ok_iff.mp ⟨w, hw⟩
      exact (duality_iff hw).mpr (hcond.resolve_left hnot)
    · intro target sources hup
      rw [upstream_eq hw] at hup
      split at hup
      · obtain rfl := Option.some.inj hup
        exact ⟨List.perm_insertionSort _ _, g.sources_pairwise target⟩
      · cases hup
    · intro node hnode port hport hone sources hup
      obtain ⟨id, hid⟩ := Graph.mem_sorted_nodes.mp hnode
      obtain ⟨hsources, hle⟩ := build_wiring_map_eq_ok hw hid hport
      rw [hsources] at hup
      obtain rfl := Option.some.inj hup
      exact hle hone

/-! ## A port listed twice -/

/-- A source, and a sink whose node lists its one IN port twice. -/
def twice_listed : Graph Empty where
  nodes := Dict.ofList [
    ("a", { id := "a", type := "source", ports := [{ id := "o", name := "out", direction := .OUT }] }),
    ("b", { id := "b", type := "sink", ports := [{ id := "i", name := "in", direction := .IN },
      { id := "i", name := "more", direction := .IN }] })]
  edges := Dict.ofList [("e", { id := "e", source := ⟨"a", "o"⟩, target := ⟨"b", "i"⟩ })]

/-- The one edge of the graph counts twice among the consumers of its source. -/
theorem twice_listed_breaks_duality : twice_listed.validate_structure = .ok () ∧
    ∃ w, build_wiring_map twice_listed = .ok w ∧ w.upstream ⟨"b", "i"⟩ = some [⟨"a", "o"⟩] ∧
      w.consumers ⟨"a", "o"⟩ = [⟨"b", "i"⟩, ⟨"b", "i"⟩] ∧ ¬ WiringLaw twice_listed := by
  have hbuilt : build_wiring_map twice_listed =
      .ok ⟨[⟨⟨"b", "i"⟩, [⟨"a", "o"⟩]⟩, ⟨⟨"b", "i"⟩, [⟨"a", "o"⟩]⟩]⟩ := rfl
  refine ⟨rfl, _, hbuilt, rfl, rfl, fun law => ?_⟩
  have hcount := law.duality _ hbuilt ⟨"a", "o"⟩ ⟨"b", "i"⟩ _ rfl
  exact absurd hcount (by decide)

end EmergentFlow
