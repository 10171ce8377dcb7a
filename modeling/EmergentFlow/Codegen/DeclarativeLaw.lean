import Mathlib.Algebra.BigOperators.Group.List.Basic
import Mathlib.Algebra.BigOperators.Ring.List
import Mathlib.Algebra.Order.BigOperators.Group.List
import Mathlib.Algebra.Ring.Nat
import EmergentFlow.Codegen.Declarative
import EmergentFlow.Codegen.Traversal

/-!
# Codegen — Declarative Law

What the chain check accepts. It counts edges port by port, and so lets the graphs through
whose edges form one path, except where a node lists a wired port twice (`accepts_iff`). The
visiting order of such a graph is the path.
-/

namespace EmergentFlow.Declarative

variable {Sub : Type}

/-- The edges, one for one, are the steps of a path through all nodes. -/
structure Path (g : Graph Sub) (path : List String) : Prop where
  perm : path.Perm g.nodes.keys
  steps : g.links.Perm (Chain.steps path)

/-- The check lets the graph through. -/
def Accepts (g : Graph Sub) : Prop :=
  ∃ wiring, build_wiring_map g = .ok wiring ∧ require_linear_chain g wiring = .ok ()

/-! ## Counting -/

/-- A sum over pairs can be taken in either order. -/
theorem sum_map_comm {α β : Type} (f : α → β → Nat) (l : List α) (l' : List β) :
    (l.map fun a => (l'.map fun b => f a b).sum).sum =
      (l'.map fun b => (l.map fun a => f a b).sum).sum := by
  induction l with
  | nil => simp
  | cons a l ih => simp only [List.map_cons, List.sum_cons, ih, List.sum_map_add]

theorem countP_eq_sum {α : Type} (p : α → Bool) (l : List α) :
    l.countP p = (l.map fun a => if p a then 1 else 0).sum := by
  induction l with
  | nil => rfl
  | cons a l ih => rw [List.countP_cons, List.map_cons, List.sum_cons, ih, Nat.add_comm]

theorem countP_le_sum {α : Type} {p : α → Bool} {f : α → Nat} {l : List α}
    (h : ∀ a ∈ l, p a = true → 1 ≤ f a) : l.countP p ≤ (l.map f).sum := by
  rw [countP_eq_sum]
  refine List.sum_le_sum fun a ha => ?_
  split
  · next hp => exact h a ha hp
  · exact Nat.zero_le _

/-- When each sum over the elements with one value of `f` is at most one, these values are
distinct, and every summand is one. -/
theorem nodup_of_sum_le {α β : Type} [DecidableEq β] {f : α → β} {w : α → Nat} {l : List α}
    (hone : ∀ a ∈ l, 1 ≤ w a)
    (hle : ∀ a ∈ l, (l.map fun b => if f b = f a then w b else 0).sum ≤ 1) :
    (l.map f).Nodup ∧ ∀ a ∈ l, w a = 1 := by
  constructor
  · refine List.nodup_iff_count_le_one.mpr fun b => ?_
    by_cases hb : b ∈ l.map f
    · obtain ⟨a, ha, rfl⟩ := List.mem_map.mp hb
      rw [List.count, List.countP_map]
      refine (countP_le_sum fun c hc hp => ?_).trans (hle a ha)
      rw [if_pos (by simpa using hp)]
      exact hone c hc
    · rw [List.count_eq_zero_of_not_mem hb]
      exact Nat.zero_le 1
  · intro a ha
    refine le_antisymm ?_ (hone a ha)
    have hterm := List.single_le_sum (fun _ _ => Nat.zero_le _) _
      (List.mem_map_of_mem (f := fun b => if f b = f a then w b else 0) ha)
    rw [if_pos rfl] at hterm
    exact hterm.trans (hle a ha)

section Weights

variable (g : Graph Sub)

/-- How often a node lists an IN port. -/
def in_listed (r : PortRef) : Nat :=
  ((g.nodes.get? r.node_id).map fun node => node.in_ports.countP (·.id = r.port_id)).getD 0

def out_listed (r : PortRef) : Nat :=
  ((g.nodes.get? r.node_id).map fun node => node.out_ports.countP (·.id = r.port_id)).getD 0

/-- No node lists a wired port twice. -/
def ListedOnce : Prop :=
  ∀ e ∈ g.edges.values, in_listed g e.target = 1 ∧ out_listed g e.source = 1

instance : Decidable (ListedOnce g) :=
  inferInstanceAs (Decidable (∀ e ∈ g.edges.values, _ ∧ _))

/-- All IN ports, as the wiring map lists them. -/
def in_refs : List PortRef :=
  g.sorted_nodes.flatMap fun node => node.in_ports.map fun p => ⟨node.id, p.id⟩

end Weights

variable {g : Graph Sub}

theorem bindings_eq {wiring : WiringMap} (h : build_wiring_map g = .ok wiring) :
    wiring.bindings = (in_refs g).map fun r => ⟨r, g.sources r⟩ := by
  obtain ⟨bindings, hbindings, hw⟩ := Checks.bind_eq_ok.mp h
  obtain rfl : ⟨bindings⟩ = wiring := by simpa [pure, Except.pure] using hw
  have hbind : ∀ (q : Node Sub × Port) b, g.bind_port q.1 q.2 = .ok b ↔
      (q.2.cardinality = .ONE → (g.sources ⟨q.1.id, q.2.id⟩).length ≤ 1) ∧
        b = ⟨⟨q.1.id, q.2.id⟩, g.sources ⟨q.1.id, q.2.id⟩⟩ := fun _ _ => Graph.bind_port_eq_ok
  rw [((Checks.mapM_iff hbind).mp hbindings).2, in_refs, List.map_flatMap, List.map_flatMap]
  simp only [List.map_map, Function.comp_def]

theorem exists_in_port (hv : g.Valid) {e : Edge} (he : e ∈ g.edges.values) :
    1 ≤ in_listed g e.target ∧ 1 ≤ out_listed g e.source := by
  obtain ⟨id, he⟩ := (Dict.mem_values_iff _).mp he
  have hport : ∀ (r : PortRef) (d : Direction), g.port_direction r = some d →
      ∃ node, g.nodes.get? r.node_id = some node ∧ ∃ p ∈ node.ports, p.direction = d ∧
        p.id = r.port_id := by
    intro r d h
    obtain ⟨node, hnode, hfind⟩ := Option.bind_eq_some_iff.mp h
    obtain ⟨p, hp, rfl⟩ := Option.map_eq_some_iff.mp hfind
    have hid := List.find?_some hp
    exact ⟨node, hnode, p, List.mem_reverse.mp (List.mem_of_find?_eq_some hp), rfl,
      of_decide_eq_true hid⟩
  constructor
  · obtain ⟨node, hnode, p, hp, hin, hid⟩ := hport _ _ (hv.target_in he)
    rw [in_listed, hnode, Option.map_some, Option.getD_some]
    exact List.countP_pos_iff.mpr ⟨p, Node.mem_in_ports.mpr ⟨hp, hin⟩, decide_eq_true hid⟩
  · obtain ⟨node, hnode, p, hp, hout, hid⟩ := hport _ _ (hv.source_out he)
    rw [out_listed, hnode, Option.map_some, Option.getD_some]
    exact List.countP_pos_iff.mpr ⟨p, Node.mem_out_ports.mpr ⟨hp, hout⟩, decide_eq_true hid⟩

theorem port_ref_eq_iff {r : PortRef} {node_id port_id : String}
    (h : r.node_id = node_id) : r = ⟨node_id, port_id⟩ ↔ port_id = r.port_id := by
  obtain ⟨n, p⟩ := r
  subst h
  simp [eq_comm]

/-- An edge is counted at its target as often as this lists the port. -/
theorem in_count_eq (hv : g.Valid) {wiring : WiringMap} (h : build_wiring_map g = .ok wiring)
    {id : String} {node : Node Sub} (hnode : g.nodes.get? id = some node) :
    in_count wiring node =
      (g.edges.values.map fun e => if e.target.node_id = id then in_listed g e.target else 0).sum := by
  have hup : ∀ p ∈ node.in_ports, ((wiring.upstream ⟨node.id, p.id⟩).getD []).length =
      (g.edges.values.map fun e => if e.target = ⟨node.id, p.id⟩ then 1 else 0).sum := by
    intro p hp
    rw [(build_wiring_map_eq_ok h hnode hp).1, Option.getD_some, Graph.length_sources,
      Graph.incoming, List.length_map, ← List.countP_eq_length_filter, countP_eq_sum]
    simp only [decide_eq_true_eq]
  rw [in_count, List.map_congr_left hup, sum_map_comm]
  congr 1
  refine List.map_congr_left fun e _ => ?_
  have hid := hv.node_id hnode
  subst hid
  by_cases htarget : e.target.node_id = node.id
  · rw [if_pos htarget, in_listed, htarget, hnode, Option.map_some, Option.getD_some,
      countP_eq_sum]
    congr 1
    refine List.map_congr_left fun p _ => ?_
    simp only [port_ref_eq_iff htarget, decide_eq_true_eq]
  · rw [if_neg htarget]
    refine List.sum_eq_zero fun n hn => ?_
    obtain ⟨p, -, rfl⟩ := List.mem_map.mp hn
    exact if_neg fun heq => htarget (congrArg PortRef.node_id heq)

/-- What one node contributes to the IN ports that are a given one. -/
theorem countP_in_ports (hv : g.Valid) {k : String} {node : Node Sub}
    (hnode : g.nodes.get? k = some node) (r : PortRef) :
    node.in_ports.countP (fun p => r = ⟨node.id, p.id⟩) =
      if k = r.node_id then in_listed g r else 0 := by
  have hid := hv.node_id hnode
  subst hid
  split
  · next htarget =>
      rw [in_listed, ← htarget, hnode, Option.map_some, Option.getD_some]
      simp only [port_ref_eq_iff htarget.symm]
  · next htarget =>
      refine List.countP_eq_zero.mpr fun p _ heq => htarget ?_
      exact (congrArg PortRef.node_id (of_decide_eq_true heq)).symm

/-- The wiring map lists an IN port as often as its node does. -/
theorem countP_in_refs (hv : g.Valid) {r : PortRef} (hr : r.node_id ∈ g.nodes.keys) :
    (in_refs g).countP (r = ·) = in_listed g r := by
  have hnodes : g.sorted_nodes.Perm (g.nodes.entries.map Prod.snd) :=
    List.perm_insertionSort _ _
  have hentries : ∀ e ∈ g.nodes.entries, e.2.in_ports.countP (fun p => r = ⟨e.2.id, p.id⟩) =
      if e.1 = r.node_id then in_listed g r else 0 := fun e he =>
    countP_in_ports hv ((Dict.mem_entries_iff _).mp he) r
  calc (in_refs g).countP (r = ·)
    _ = (g.sorted_nodes.map fun node => node.in_ports.countP fun p => r = ⟨node.id, p.id⟩).sum := by
        rw [in_refs, List.countP_flatMap]
        congr 1
        refine List.map_congr_left fun node _ => ?_
        rw [Function.comp, List.countP_map]
        rfl
    _ = (g.nodes.entries.map fun e => if e.1 = r.node_id then in_listed g r else 0).sum := by
        rw [(hnodes.map _).sum_eq, List.map_map]
        congr 1
        exact List.map_congr_left hentries
    _ = (g.nodes.keys.map fun k => if k = r.node_id then in_listed g r else 0).sum := by
        rw [Dict.keys, List.map_map]
        rfl
    _ = in_listed g r := by
        rw [List.sum_map_eq_nsmul_single r.node_id _ fun k hk _ => if_neg hk, if_pos rfl,
          List.count_eq_one_of_mem g.nodes.nodup_keys hr, one_nsmul]

theorem consumers_length (hv : g.Valid) {wiring : WiringMap} (h : build_wiring_map g = .ok wiring)
    (s : PortRef) : (wiring.consumers s).length =
      (g.edges.values.map fun e => if e.source = s then in_listed g e.target else 0).sum := by
  have hbinding : ∀ r, ((g.sources r).filter (· = s)).length =
      (g.edges.values.map fun e => if e.target = r ∧ e.source = s then 1 else 0).sum := by
    intro r
    have hperm : ((g.sources r).filter (· = s)).Perm ((g.incoming r).filter (· = s)) :=
      (List.perm_insertionSort _ _).filter _
    rw [hperm.length_eq, Graph.incoming, ← List.countP_eq_length_filter, List.countP_map,
      List.countP_filter, countP_eq_sum]
    congr 1
    refine List.map_congr_left fun e _ => ?_
    simp [and_comm]
  rw [WiringMap.consumers, bindings_eq h, List.length_flatMap, List.map_map]
  have hmap : (List.map ((fun b : InputBinding =>
      ((b.sources.filter (· = s)).map fun _ => b.target).length) ∘ fun r => ⟨r, g.sources r⟩)
        (in_refs g)) = (in_refs g).map fun r =>
          (g.edges.values.map fun e => if e.target = r ∧ e.source = s then 1 else 0).sum := by
    refine List.map_congr_left fun r _ => ?_
    rw [Function.comp, List.length_map, hbinding]
  -- count by edges, not by ports: an edge adds one for each port that lists its target
  rw [hmap, sum_map_comm]
  congr 1
  refine List.map_congr_left fun e he => ?_
  have hkey : e.target.node_id ∈ g.nodes.keys := by
    obtain ⟨id, he⟩ := (Dict.mem_values_iff _).mp he
    exact (hv.mem_keys (Graph.feeds_iff.mpr ⟨id, e, he, rfl, rfl⟩)).2
  by_cases hs : e.source = s
  · rw [if_pos hs, ← countP_in_refs hv hkey, countP_eq_sum]
    simp [hs]
  · simp [hs]

/-- An edge is counted at its source as often as both its ends list their ports. -/
theorem out_count_eq (hv : g.Valid) {wiring : WiringMap} (h : build_wiring_map g = .ok wiring)
    {id : String} {node : Node Sub} (hnode : g.nodes.get? id = some node) :
    out_count wiring node = (g.edges.values.map fun e =>
      if e.source.node_id = id then out_listed g e.source * in_listed g e.target else 0).sum := by
  have hcons : ∀ p ∈ node.out_ports, (wiring.consumers ⟨node.id, p.id⟩).length =
      (g.edges.values.map fun e =>
        if e.source = ⟨node.id, p.id⟩ then in_listed g e.target else 0).sum := fun p _ =>
    consumers_length hv h _
  rw [out_count, List.map_congr_left hcons, sum_map_comm]
  congr 1
  refine List.map_congr_left fun e _ => ?_
  have hid := hv.node_id hnode
  subst hid
  by_cases hsource : e.source.node_id = node.id
  · have hlisted : out_listed g e.source = node.out_ports.countP (·.id = e.source.port_id) := by
      rw [out_listed, hsource, hnode, Option.map_some, Option.getD_some]
    rw [if_pos hsource, hlisted, countP_eq_sum, ← List.sum_map_mul_right]
    congr 1
    refine List.map_congr_left fun p _ => ?_
    simp only [port_ref_eq_iff hsource, decide_eq_true_eq, ite_mul, one_mul, zero_mul]
  · rw [if_neg hsource]
    refine List.sum_eq_zero fun n hn => ?_
    obtain ⟨p, -, rfl⟩ := List.mem_map.mp hn
    exact if_neg fun heq => hsource (congrArg PortRef.node_id heq)

/-! ## The check -/

theorem ite_succ_add (p : Prop) [Decidable p] (a b : Nat) :
    (if p then a + 1 else a) + b = a + (b + if p then 1 else 0) := by
  split <;> omega

theorem foldlM_count_ends {wiring : WiringMap} {l : List (Node Sub)} {ends ends' : Nat × Nat} :
    l.foldlM (count_ends wiring) ends = .ok ends' ↔
      (∀ node ∈ l, in_count wiring node ≤ 1 ∧ out_count wiring node ≤ 1) ∧
        ends' = (ends.1 + l.countP (in_count wiring · = 0),
          ends.2 + l.countP (out_count wiring · = 0)) := by
  induction l generalizing ends with
  | nil => simp [pure, Except.pure, eq_comm]
  | cons node l ih =>
      rw [List.foldlM_cons, Checks.bind_eq_ok, List.forall_mem_cons]
      by_cases hfan : 1 < in_count wiring node ∨ 1 < out_count wiring node
      · simp only [count_ends, if_pos hfan, reduceCtorEq, false_and, exists_false, false_iff]
        omega
      · have hsmall : in_count wiring node ≤ 1 ∧ out_count wiring node ≤ 1 := by omega
        simp only [count_ends, if_neg hfan, Except.ok.injEq, exists_eq_left', ih, hsmall,
          true_and, List.countP_cons, decide_eq_true_eq, ite_succ_add]

/-- The check in closed form. -/
structure Chained (g : Graph Sub) (wiring : WiringMap) : Prop where
  size : g.edges.size + 1 = g.nodes.size
  narrow : ∀ node ∈ g.nodes.values, in_count wiring node ≤ 1 ∧ out_count wiring node ≤ 1
  heads : g.nodes.values.countP (in_count wiring · = 0) = 1
  tails : g.nodes.values.countP (out_count wiring · = 0) = 1

theorem require_linear_chain_iff {wiring : WiringMap} :
    require_linear_chain g wiring = .ok () ↔ Chained g wiring := by
  rw [require_linear_chain]
  by_cases hsize : (g.edges.size : Int) ≠ g.nodes.size - 1
  · rw [if_pos hsize]
    refine ⟨fun h => (by cases h), fun h => absurd h.size ?_⟩
    omega
  · rw [if_neg hsize]
    dsimp only
    rw [Checks.bind_eq_ok]
    constructor
    · rintro ⟨⟨heads, tails⟩, hfold, hends⟩
      obtain ⟨hnarrow, heq⟩ := foldlM_count_ends.mp hfold
      obtain ⟨rfl, rfl⟩ := Prod.mk.inj heq
      by_cases hone : g.nodes.values.countP (in_count wiring · = 0) = 1 ∧
        g.nodes.values.countP (out_count wiring · = 0) = 1
      · exact ⟨by omega, hnarrow, hone.1, hone.2⟩
      · simp only [Nat.zero_add] at hends
        rw [if_pos (by omega)] at hends
        cases hends
    · intro h
      refine ⟨(1, 1), foldlM_count_ends.mpr ⟨h.narrow, ?_⟩, rfl⟩
      rw [h.heads, h.tails]

theorem length_links : g.links.length = g.edges.size := by
  rw [Graph.links, List.length_map, Dict.values, List.length_map, Dict.size]

/-- In a graph that the check accepts, no two edges share an end, and every wired port is listed
once. -/
theorem Chained.degrees (hv : g.Valid) {wiring : WiringMap} (hw : build_wiring_map g = .ok wiring)
    (h : Chained g wiring) : (g.links.map Prod.snd).Nodup ∧ (g.links.map Prod.fst).Nodup ∧
      ListedOnce g := by
  have hnodes : ∀ e ∈ g.edges.values, (∃ node, g.nodes.get? e.source.node_id = some node) ∧
      ∃ node, g.nodes.get? e.target.node_id = some node := by
    intro e he
    obtain ⟨id, he⟩ := (Dict.mem_values_iff _).mp he
    have hkeys := hv.mem_keys (Graph.feeds_iff.mpr ⟨id, e, he, rfl, rfl⟩)
    exact ⟨(Dict.mem_keys_iff _).mp hkeys.1, (Dict.mem_keys_iff _).mp hkeys.2⟩
  have hin := nodup_of_sum_le (f := fun e : Edge => e.target.node_id)
    (fun e he => (exists_in_port hv he).1) fun e he => by
      obtain ⟨node, hnode⟩ := (hnodes e he).2
      rw [← in_count_eq hv hw hnode]
      exact (h.narrow _ ((Dict.mem_values_iff _).mpr ⟨_, hnode⟩)).1
  have hout := nodup_of_sum_le (f := fun e : Edge => e.source.node_id)
    (fun e he => Nat.mul_le_mul (exists_in_port hv he).2 (exists_in_port hv he).1) fun e he => by
      obtain ⟨node, hnode⟩ := (hnodes e he).1
      rw [← out_count_eq hv hw hnode]
      exact (h.narrow _ ((Dict.mem_values_iff _).mpr ⟨_, hnode⟩)).2
  rw [Graph.links, List.map_map, List.map_map]
  refine ⟨hin.1, hout.1, fun e he => ⟨hin.2 e he, ?_⟩⟩
  have hproduct := hout.2 e he
  rwa [hin.2 e he, Nat.mul_one] at hproduct

theorem Chained.path (hv : g.Valid) {wiring : WiringMap} (hw : build_wiring_map g = .ok wiring)
    (h : Chained g wiring) (hacyclic : Closure.Acyclic g.Feeds) :
    (∃ path, Path g path) ∧ ListedOnce g := by
  obtain ⟨hin, hout, hlisted⟩ := h.degrees hv hw
  obtain ⟨order, horder⟩ := (topological_sort_ok_iff hv).mpr hacyclic
  obtain ⟨hperm, hrespects⟩ := topological_sort_eq_ok hv horder
  refine ⟨⟨order, hperm, ?_⟩, hlisted⟩
  refine Chain.perm_steps_of_degrees (hperm.nodup_iff.mpr g.nodes.nodup_keys) hrespects
    (fun e he => hperm.mem_iff.mpr (hv.mem_keys he).2) hin hout ?_
  rw [length_links, h.size, hperm.length_eq, Dict.keys, List.length_map, Dict.size]

theorem Path.nodup {path : List String} (h : Path g path) : path.Nodup :=
  h.perm.nodup_iff.mpr g.nodes.nodup_keys

theorem Path.count_target {path : List String} (h : Path g path) (id : String) :
    g.edges.values.countP (·.target.node_id = id) = path.tail.count id := by
  rw [← Chain.map_snd_steps, ← (h.steps.map Prod.snd).count_eq, Graph.links, List.map_map,
    List.count, List.countP_map]
  refine List.countP_congr fun e _ => ?_
  simp

theorem Path.count_source {path : List String} (h : Path g path) (id : String) :
    g.edges.values.countP (·.source.node_id = id) = path.dropLast.count id := by
  rw [← Chain.map_fst_steps, ← (h.steps.map Prod.fst).count_eq, Graph.links, List.map_map,
    List.count, List.countP_map]
  refine List.countP_congr fun e _ => ?_
  simp

/-- No port of a path has two sources, so that the wiring map can be built. -/
theorem Path.wiring {path : List String} (h : Path g path) :
    ∃ wiring, build_wiring_map g = .ok wiring := by
  have hports : ∀ q ∈ g.sorted_nodes.flatMap fun node => node.in_ports.map fun p => (node, p),
      ∃ b, g.bind_port q.1 q.2 = .ok b := by
    intro q _
    refine ⟨_, Graph.bind_port_eq_ok.mpr ⟨fun _ => ?_, rfl⟩⟩
    rw [Graph.length_sources, Graph.incoming, List.length_map, ← List.countP_eq_length_filter]
    calc g.edges.values.countP (·.target = ⟨q.1.id, q.2.id⟩)
      _ ≤ g.edges.values.countP (·.target.node_id = q.1.id) := by
          refine List.countP_mono_left fun e _ htarget => ?_
          simp only [decide_eq_true_eq] at htarget ⊢
          rw [htarget]
      _ ≤ 1 := by
          rw [h.count_target]
          exact List.nodup_iff_count_le_one.mp (h.nodup.sublist (List.tail_sublist _)) _
  obtain ⟨bindings, hbindings⟩ := Checks.mapM_exists hports
  refine ⟨⟨bindings⟩, ?_⟩
  rw [build_wiring_map, hbindings]
  rfl

theorem Path.counts (hv : g.Valid) {wiring : WiringMap} (hw : build_wiring_map g = .ok wiring)
    {path : List String} (h : Path g path) (hlisted : ListedOnce g) {id : String}
    {node : Node Sub} (hnode : g.nodes.get? id = some node) :
    in_count wiring node = path.tail.count id ∧ out_count wiring node = path.dropLast.count id := by
  rw [in_count_eq hv hw hnode, out_count_eq hv hw hnode, ← h.count_target, ← h.count_source,
    countP_eq_sum, countP_eq_sum]
  simp only [decide_eq_true_eq]
  constructor
  · congr 1
    refine List.map_congr_left fun e he => ?_
    rw [(hlisted e he).1]
  · congr 1
    refine List.map_congr_left fun e he => ?_
    rw [(hlisted e he).1, (hlisted e he).2]

/-- Counting nodes by a number that their keys determine. -/
theorem countP_nodes {f : Node Sub → Nat} {f' : String → Nat}
    (h : ∀ {id node}, g.nodes.get? id = some node → f node = f' id) :
    g.nodes.values.countP (f · = 0) = g.nodes.keys.countP (f' · = 0) := by
  rw [Dict.values, Dict.keys, List.countP_map, List.countP_map]
  refine List.countP_congr fun e he => ?_
  rw [Function.comp, Function.comp, h ((Dict.mem_entries_iff _).mp he)]

theorem Path.chained (hv : g.Valid) (hne : g.nodes.values ≠ []) {wiring : WiringMap}
    (hw : build_wiring_map g = .ok wiring) {path : List String} (h : Path g path)
    (hlisted : ListedOnce g) : Chained g wiring := by
  have hcounts : ∀ {id node}, g.nodes.get? id = some node → in_count wiring node =
      path.tail.count id ∧ out_count wiring node = path.dropLast.count id := fun hnode =>
    h.counts hv hw hlisted hnode
  have hpath : path ≠ [] := by
    rintro rfl
    have hkeys := h.perm.length_eq
    rw [Dict.keys, List.length_map] at hkeys
    refine hne (List.map_eq_nil_iff.mpr (List.length_eq_zero_iff.mp hkeys.symm))
  constructor
  · have hsize : path.length = g.nodes.size := by
      rw [h.perm.length_eq, Dict.keys, List.length_map, Dict.size]
    have := List.length_pos_iff.mpr hpath
    rw [← length_links, h.steps.length_eq, Chain.length_steps]
    omega
  · intro node hnode
    obtain ⟨id, hnode⟩ := (Dict.mem_values_iff _).mp hnode
    rw [(hcounts hnode).1, (hcounts hnode).2]
    exact ⟨List.nodup_iff_count_le_one.mp (h.nodup.sublist (List.tail_sublist _)) id,
      List.nodup_iff_count_le_one.mp (h.nodup.sublist (List.dropLast_sublist _)) id⟩
  · rw [countP_nodes fun hnode => (hcounts hnode).1, ← h.perm.countP_eq]
    exact Chain.countP_tail h.nodup hpath
  · rw [countP_nodes fun hnode => (hcounts hnode).2, ← h.perm.countP_eq]
    exact Chain.countP_dropLast h.nodup hpath

/-- The check accepts the graphs that are one path whose wired ports are listed once. -/
theorem accepts_iff (hv : g.Valid) (hne : g.nodes.values ≠ [])
    (hacyclic : Closure.Acyclic g.Feeds) :
    Accepts g ↔ (∃ path, Path g path) ∧ ListedOnce g := by
  constructor
  · rintro ⟨wiring, hw, hcheck⟩
    exact (require_linear_chain_iff.mp hcheck).path hv hw hacyclic
  · rintro ⟨⟨path, hpath⟩, hlisted⟩
    obtain ⟨wiring, hw⟩ := hpath.wiring
    exact ⟨wiring, hw, require_linear_chain_iff.mpr (hpath.chained hv hne hw hlisted)⟩

theorem Path.topological_sort_eq (hv : g.Valid) (hacyclic : Closure.Acyclic g.Feeds)
    {path : List String} (h : Path g path) : topological_sort g = .ok path := by
  obtain ⟨order, horder⟩ := (topological_sort_ok_iff hv).mpr hacyclic
  obtain ⟨hperm, hrespects⟩ := topological_sort_eq_ok hv horder
  rw [horder, Chain.respects_eq_path (hperm.nodup_iff.mpr g.nodes.nodup_keys)
    (h.perm.trans hperm.symm) h.steps hrespects]

end EmergentFlow.Declarative
