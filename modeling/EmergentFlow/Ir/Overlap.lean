import Mathlib.Data.List.Pairwise
import EmergentFlow.Ir.RoundTrip

/-!
# Ir — Overlap

Whether the nodes that `apply_mutation` places by itself stay clear of all
others. `_next_cascade_position` looks at what is placed already, so a node
put by hand, further on in the batch, on a point that has been handed out
lands on top of another node; `Spared` says that no entry does this.
-/

namespace EmergentFlow

variable {Sub : Type}

/-! ## Free points -/

/-- How many of the first `k` cascade points are not among the claimed
positions. -/
def free_points (existing claimed : List Position) (k : Nat) : Nat :=
  (List.range k).countP fun i => cascade_point existing i ∉ claimed

section Points

variable {existing claimed : List Position}

theorem free_points_succ (k : Nat) :
    free_points existing claimed (k + 1) =
      free_points existing claimed k + if cascade_point existing k ∈ claimed then 0 else 1 := by
  simp only [free_points, List.range_succ, List.countP_append, List.countP_cons, List.countP_nil]
  by_cases h : cascade_point existing k ∈ claimed <;> simp [h]

theorem free_points_mono {j k : Nat} (h : j ≤ k) :
    free_points existing claimed j ≤ free_points existing claimed k := by
  induction h with
  | refl => exact le_refl _
  | step _ ih =>
      rw [Nat.succ_eq_add_one, free_points_succ]
      omega

theorem free_points_lt {j k : Nat} (h : j < k) (hfree : cascade_point existing j ∉ claimed) :
    free_points existing claimed j < free_points existing claimed k := by
  have hstep : free_points existing claimed (j + 1) = free_points existing claimed j + 1 := by
    rw [free_points_succ, if_neg hfree]
  have hmono : free_points existing claimed (j + 1) ≤ free_points existing claimed k :=
    free_points_mono h
  omega

/-- Points that are all claimed do not count. -/
theorem free_points_skip {j k : Nat} (h : j ≤ k)
    (hall : ∀ i, j ≤ i → i < k → cascade_point existing i ∈ claimed) :
    free_points existing claimed k = free_points existing claimed j := by
  induction h with
  | refl => rfl
  | step hle ih =>
      rw [Nat.succ_eq_add_one, free_points_succ, if_pos (hall _ hle (Nat.lt_succ_self _)),
        ih fun i hi hlt => hall i hi (by omega)]
      rfl

end Points

/-! ## Points handed out -/

/-- Where the loop stands between two entries of the batch: `claimed` are
the positions the entries so far were given, `handed` the points that were
handed out, none of which was claimed afterwards. -/
structure Handed (existing claimed handed : List Position) (index : Nat)
    (taken : List Position) : Prop where
  taken_iff : ∀ p, p ∈ taken ↔ p ∈ existing ∨ p ∈ claimed ∨ p ∈ handed
  handed_iff : ∀ p, p ∈ handed ↔ ∃ i < index, p = cascade_point existing i ∧ p ∉ claimed
  count : handed.length = free_points existing claimed index

section Batch

variable {existing claimed handed taken : List Position} {index : Nat}

theorem Handed.start (htaken : ∀ p, p ∈ taken ↔ p ∈ existing) :
    Handed existing [] [] 0 taken :=
  ⟨by simpa using htaken, by simp, rfl⟩

/-- Points from the next index on are taken only where they were claimed. -/
theorem Handed.claimed_of_taken (h : Handed existing claimed handed index taken) {i : Nat}
    (hi : index ≤ i) (ht : cascade_point existing i ∈ taken) :
    cascade_point existing i ∈ claimed := by
  rcases (h.taken_iff _).mp ht with hp | hp | hp
  · exact absurd hp (cascade_point_notMem existing i)
  · exact hp
  · obtain ⟨j, hj, hpoint, -⟩ := (h.handed_iff _).mp hp
    have := cascade_point_inj hpoint
    omega

theorem Handed.next {r : Position × Nat} (h : Handed existing claimed handed index taken)
    (hfree : FirstFree existing taken index r) :
    Handed existing claimed (r.1 :: handed) (r.2 + 1) (r.1 :: taken) := by
  have hnot : r.1 ∉ claimed := fun hp => hfree.free ((h.taken_iff _).mpr (.inr (.inl hp)))
  have hskipped : ∀ i, index ≤ i → i < r.2 → cascade_point existing i ∈ claimed :=
    fun i hi hlt => h.claimed_of_taken hi (hfree.skipped i hi hlt)
  constructor
  · intro p
    simp only [List.mem_cons, h.taken_iff]
    tauto
  · intro p
    rw [List.mem_cons, h.handed_iff]
    constructor
    · rintro (rfl | ⟨i, hi, hp⟩)
      · exact ⟨r.2, Nat.lt_succ_self _, hfree.point, hnot⟩
      · exact ⟨i, by have := hfree.start_le; omega, hp⟩
    · rintro ⟨i, hi, rfl, hp⟩
      rcases Nat.lt_or_ge i index with hlt | hge
      · exact .inr ⟨i, hlt, rfl, hp⟩
      · rcases Nat.eq_or_lt_of_le (Nat.le_of_lt_succ hi) with rfl | hlt
        · exact .inl hfree.point.symm
        · exact absurd (hskipped i hge hlt) hp
  · rw [List.length_cons, h.count, free_points_succ, ← hfree.point, if_neg hnot,
      free_points_skip hfree.start_le hskipped]

/-- A position given by hand that no node was placed at. -/
theorem Handed.claim {p : Position} (h : Handed existing claimed handed index taken)
    (hp : p ∉ handed) : Handed existing (claimed ++ [p]) handed index (p :: taken) := by
  have hnot : ∀ i < index, cascade_point existing i ∉ claimed →
      cascade_point existing i ∉ claimed ++ [p] := by
    intro i hi hfree hmem
    rcases List.mem_append.mp hmem with hmem | hmem
    · exact hfree hmem
    · rw [List.mem_singleton] at hmem
      exact hp (hmem ▸ (h.handed_iff _).mpr ⟨i, hi, rfl, hfree⟩)
  constructor
  · intro q
    simp only [List.mem_cons, List.mem_append, List.not_mem_nil, h.taken_iff]
    tauto
  · intro q
    rw [h.handed_iff]
    constructor
    · rintro ⟨i, hi, rfl, hfree⟩
      exact ⟨i, hi, rfl, hnot i hi hfree⟩
    · rintro ⟨i, hi, hq, hfree⟩
      exact ⟨i, hi, hq, fun hmem => hfree (List.mem_append_left _ hmem)⟩
  · rw [h.count]
    apply List.countP_congr
    intro i hi
    rw [List.mem_range] at hi
    simp only [decide_eq_true_eq]
    exact ⟨hnot i hi, fun hfree hmem => hfree (List.mem_append_left _ hmem)⟩

/-- A point has been handed out when fewer points below it are free than
were handed out. -/
theorem Handed.mem_iff (h : Handed existing claimed handed index taken) (p : Position) :
    p ∈ handed ↔ ∃ k, p = cascade_point existing k ∧ p ∉ claimed ∧
      free_points existing claimed k < handed.length := by
  rw [h.handed_iff, h.count]
  constructor
  · rintro ⟨k, hk, rfl, hp⟩
    exact ⟨k, rfl, hp, free_points_lt hk hp⟩
  · rintro ⟨k, rfl, hp, hlt⟩
    refine ⟨k, ?_, rfl, hp⟩
    by_contra hge
    have : free_points existing claimed index ≤ free_points existing claimed k :=
      free_points_mono (Nat.le_of_not_lt hge)
    omega

end Batch

/-! ## The batch -/

/-- What is claimed by the entries of a batch: the positions that are not the
default one. -/
def claimed_by (pre : List (Node Sub)) : List Position :=
  (pre.map (·.position)).filter (· ≠ {})

/-- How many entries of a batch are left at the default position. -/
def left_default (pre : List (Node Sub)) : Nat := (pre.map (·.position)).count {}

/-- The entry after `pre` is not put by hand on a point that the entries at
the default position have used up: when it sits at the `k`-th cascade point,
and no earlier entry does, the points below leave room for all of them. -/
def Spared (existing : List Position) (pre : List (Node Sub)) (node : Node Sub) : Prop :=
  ∀ k, node.position ≠ {} → node.position = cascade_point existing k →
    node.position ∉ claimed_by pre → left_default pre ≤ free_points existing (claimed_by pre) k

/-- Two added nodes, each as given and as stored: when one of them was placed
automatically they do not end up at one position. -/
def Clear (a b : Node Sub × Node Sub) : Prop :=
  a.1.position = {} ∨ b.1.position = {} → a.2.position ≠ b.2.position

instance : Std.Symm (@Clear Sub) :=
  ⟨fun _ _ h hor => (h hor.symm).symm⟩

theorem forall_entry_cons {α : Type} {P : List α → α → Prop} {a : α} {l : List α} :
    (∀ pre x post, a :: l = pre ++ x :: post → P pre x) ↔
      P [] a ∧ ∀ pre x post, l = pre ++ x :: post → P (a :: pre) x := by
  constructor
  · intro h
    exact ⟨h [] a l rfl, fun pre x post hl => h (a :: pre) x post (by rw [hl]; rfl)⟩
  · rintro ⟨hhead, htail⟩ pre x post hl
    cases pre with
    | nil =>
        obtain ⟨rfl, rfl⟩ := List.cons_eq_cons.mp hl
        exact hhead
    | cons b pre =>
        obtain ⟨rfl, hrest⟩ := List.cons_eq_cons.mp hl
        exact htail pre x post hrest

section Batch

variable {existing handed taken : List Position} {index : Nat}

/-- How an added node is stored. -/
structure Stored (existing taken : List Position) (a b : Node Sub) : Prop where
  id : b.id = a.id
  placed : b = { a with position := b.position }
  given : a.position ≠ {} → b = a
  cascaded : a.position = {} → ∃ k, b.position = cascade_point existing k
  free : a.position = {} → b.position ∉ taken

theorem stored_place_node (node : Node Sub) :
    Stored existing taken node (place_node existing taken index node).1 := by
  have hfree := cascade_loop_free existing taken index
  by_cases h : node.position = {}
  · rw [place_node_of_eq h]
    exact ⟨rfl, rfl, fun hne => absurd h hne, fun _ => ⟨_, hfree.point⟩, fun _ => hfree.free⟩
  · rw [place_node_of_ne _ _ _ h]
    exact ⟨rfl, rfl, fun _ => rfl, fun heq => absurd heq h, fun heq => absurd heq h⟩

theorem stored_of_mem {l : List (Node Sub)} {p : Node Sub × Node Sub}
    (hp : p ∈ l.zip (place_nodes existing l index taken)) : Stored existing taken p.1 p.2 := by
  induction l generalizing index taken with
  | nil => simp at hp
  | cons node rest ih =>
      simp only [place_nodes, List.zip_cons_cons, List.mem_cons] at hp
      rcases hp with rfl | hp
      · exact stored_place_node node
      · have hrest := ih hp
        exact ⟨hrest.id, hrest.placed, hrest.given, hrest.cascaded,
          fun heq hmem => hrest.free heq (List.mem_cons_of_mem _ hmem)⟩

theorem claimed_by_concat_default {pre : List (Node Sub)} {node : Node Sub}
    (h : node.position = {}) : claimed_by (pre ++ [node]) = claimed_by pre := by
  simp [claimed_by, List.filter_append, h]

theorem claimed_by_concat_given {pre : List (Node Sub)} {node : Node Sub}
    (h : node.position ≠ {}) : claimed_by (pre ++ [node]) = claimed_by pre ++ [node.position] := by
  simp [claimed_by, List.filter_append, h]

theorem left_default_concat (pre : List (Node Sub)) (node : Node Sub) :
    left_default (pre ++ [node]) = left_default pre + if node.position = {} then 1 else 0 := by
  simp [left_default, List.count_append, List.count_singleton]

/-- An entry that was given its position lands on a point handed out before
exactly when it is not spared. -/
theorem Handed.spared_iff {pre : List (Node Sub)} {node : Node Sub}
    (h : Handed existing (claimed_by pre) handed index taken)
    (hcount : handed.length = left_default pre) (hn : node.position ≠ {}) :
    Spared existing pre node ↔ node.position ∉ handed := by
  rw [h.mem_iff, hcount]
  constructor
  · rintro hspared ⟨k, hk, hnot, hlt⟩
    have := hspared k hn hk hnot
    omega
  · intro hno k _ hk hnot
    by_contra hlt
    exact hno ⟨k, hk, hnot, by omega⟩

/-- The entries that are still to come stay clear of each other and of the
points handed out so far exactly when each of them is spared. -/
theorem Handed.clear_iff {pre rest : List (Node Sub)}
    (h : Handed existing (claimed_by pre) handed index taken)
    (hcount : handed.length = left_default pre) :
    ((∀ b ∈ rest.zip (place_nodes existing rest index taken), b.2.position ∉ handed) ∧
        (rest.zip (place_nodes existing rest index taken)).Pairwise Clear) ↔
      ∀ mid node post, rest = mid ++ node :: post → Spared existing (pre ++ mid) node := by
  induction rest generalizing pre handed index taken with
  | nil => simp
  | cons node rest ih =>
      rw [forall_entry_cons (P := fun mid node => Spared existing (pre ++ mid) node),
        List.append_nil]
      simp only [place_nodes, List.zip_cons_cons, List.forall_mem_cons, List.pairwise_cons]
      by_cases hn : node.position = {}
      · -- a default position is handed out by the cascade, and is new
        have hfree := cascade_loop_free existing taken index
        have hnext : Handed existing (claimed_by (pre ++ [node]))
            ((next_cascade_position existing index taken).1 :: handed)
            ((next_cascade_position existing index taken).2 + 1)
            ((next_cascade_position existing index taken).1 :: taken) := by
          rw [claimed_by_concat_default hn]
          exact h.next hfree
        have hnot : (next_cascade_position existing index taken).1 ∉ handed :=
          fun hmem => hfree.free ((h.taken_iff _).mpr (.inr (.inr hmem)))
        have hrest := ih hnext (by rw [List.length_cons, left_default_concat, if_pos hn, hcount])
        simp only [List.append_assoc, List.cons_append, List.nil_append] at hrest
        rw [place_node_of_eq hn, ← hrest]
        have hspared : Spared existing pre node := fun _ hne => absurd hn hne
        simp only [hspared, hnot, true_and, not_false_eq_true, List.mem_cons, not_or, Clear, hn,
          true_or, forall_const]
        constructor
        · rintro ⟨hhanded, happart, hrest⟩
          exact ⟨fun b hb => ⟨(happart b hb).symm, hhanded b hb⟩, hrest⟩
        · rintro ⟨hboth, hrest⟩
          exact ⟨fun b hb => (hboth b hb).2, fun b hb => Ne.symm (hboth b hb).1, hrest⟩
      · -- a given position stands, and may be one that was handed out
        rw [place_node_of_ne _ _ _ hn, h.spared_iff hcount hn]
        by_cases hp : node.position ∈ handed
        · simp [hp]
        · have hnext : Handed existing (claimed_by (pre ++ [node])) handed index
              (node.position :: taken) := by
            rw [claimed_by_concat_given hn]
            exact h.claim hp
          have hclear : ∀ b ∈ rest.zip (place_nodes existing rest index (node.position :: taken)),
              Clear (node, node) b := by
            rintro b hb (heq | heq)
            · exact absurd heq hn
            · intro hpos
              exact (stored_of_mem hb).free heq (hpos ▸ List.mem_cons_self)
          have hrest := ih hnext (by rw [left_default_concat, if_neg hn, hcount, Nat.add_zero])
          simp only [List.append_assoc, List.cons_append, List.nil_append] at hrest
          rw [← hrest]
          simp only [hp, not_false_eq_true, true_and]
          constructor
          · rintro ⟨hhanded, -, hrest⟩
            exact ⟨hhanded, hrest⟩
          · rintro ⟨hhanded, hrest⟩
            exact ⟨hhanded, hclear, hrest⟩

end Batch

/-! ## The resulting graph -/

/-- No node of the result that was added at the default position shares the
position it got with another node. -/
def NoOverlap (m : GraphMutation Sub) (g' : Graph Sub) : Prop :=
  ∀ a ∈ m.add_nodes, a.position = {} → ∀ n, g'.nodes.get? a.id = some n →
    ∀ k n', k ≠ a.id → g'.nodes.get? k = some n' → n'.position ≠ n.position

section Result

variable {reg : NodeRegistry} {g g' : Graph Sub} {m : GraphMutation Sub}
  {kept placed : Dict String (Node Sub)} {kept_edges : Dict String Edge}

/-- The added nodes, each as given and as placed. -/
def placements (g : Graph Sub) (m : GraphMutation Sub) : List (Node Sub × Node Sub) :=
  m.add_nodes.zip (place_nodes g.positions m.add_nodes 0 g.positions)

theorem length_placed : (place_nodes g.positions m.add_nodes 0 g.positions).length
    = m.add_nodes.length := by
  have hids := congrArg List.length (place_nodes_ids g.positions g.positions m.add_nodes 0)
  simpa only [List.length_map] using hids

theorem placements_fst : (placements g m).map Prod.fst = m.add_nodes :=
  List.map_fst_zip length_placed.ge

theorem placements_snd :
    (placements g m).map Prod.snd = place_nodes g.positions m.add_nodes 0 g.positions :=
  List.map_snd_zip length_placed.le

theorem Applied.placements_ids (ha : Applied reg g m kept placed kept_edges g') :
    ((placements g m).map (·.2.id)).Nodup := by
  have hids : (placements g m).map (·.2.id) = ((placements g m).map Prod.snd).map (·.id) := by
    rw [List.map_map]
    rfl
  rw [hids, placements_snd]
  exact ha.added.nodup

/-- Where a node of the result sits: at its old position, or where it was
placed. -/
theorem Applied.position_cases (ha : Applied reg g m kept placed kept_edges g') {k : String}
    {n : Node Sub} (hn : g'.nodes.get? k = some n) :
    n.position ∈ g.positions ∨
      ∃ p ∈ placements g m, p.2.id = k ∧ p.2.position = n.position := by
  have hposition := ha.params_set.position k
  rw [hn, Option.map_some] at hposition
  by_cases hk : k ∈ (place_nodes g.positions m.add_nodes 0 g.positions).map (·.id)
  · obtain ⟨b, hb, rfl⟩ := List.mem_map.mp hk
    rw [ha.added.here b hb, Option.map_some, Option.some.injEq] at hposition
    rw [← placements_snd] at hb
    obtain ⟨p, hp, rfl⟩ := List.mem_map.mp hb
    exact .inr ⟨p, hp, rfl, hposition.symm⟩
  · rw [ha.added.frame k hk, ha.kept_get? k] at hposition
    split at hposition
    · cases hposition
    · exact .inl (Graph.mem_positions.mpr ⟨k, hposition.symm⟩)

/-- The position of a placed node in the result. -/
theorem Applied.placed_position (ha : Applied reg g m kept placed kept_edges g')
    {p : Node Sub × Node Sub} (hp : p ∈ placements g m) :
    (g'.nodes.get? p.1.id).map (·.position) = some p.2.position := by
  rw [ha.params_set.position, ← (stored_of_mem hp).id, ha.added.here _ (List.of_mem_zip hp).2,
    Option.map_some]

theorem Applied.noOverlap_iff (ha : Applied reg g m kept placed kept_edges g') :
    NoOverlap m g' ↔ (placements g m).Pairwise Clear := by
  have hids := ha.placements_ids
  constructor
  · intro hapart
    apply List.Nodup.pairwise_of_forall_ne (List.Nodup.of_map _ hids)
    intro a ha' b hb hne
    have hne_id : b.1.id ≠ a.1.id := by
      rw [← (stored_of_mem ha').id, ← (stored_of_mem hb).id]
      exact fun heq => hne (List.inj_on_of_nodup_map hids ha' hb heq.symm)
    obtain ⟨n, hn, hpos⟩ := Option.map_eq_some_iff.mp (ha.placed_position ha')
    obtain ⟨n', hn', hpos'⟩ := Option.map_eq_some_iff.mp (ha.placed_position hb)
    rintro (hdefault | hdefault)
    · rw [← hpos, ← hpos']
      exact (hapart _ (List.of_mem_zip ha').1 hdefault n hn _ n' hne_id hn').symm
    · rw [← hpos, ← hpos']
      exact hapart _ (List.of_mem_zip hb).1 hdefault n' hn' _ n hne_id.symm hn
  · intro hclear a hmem hdefault n hn k n' hk hn' hsame
    rw [← placements_fst (g := g)] at hmem
    obtain ⟨p, hp, rfl⟩ := List.mem_map.mp hmem
    have hposition := ha.placed_position hp
    rw [hn, Option.map_some, Option.some.injEq] at hposition
    rcases ha.position_cases hn' with hold | ⟨q, hq, rfl, hplaced⟩
    · -- a cascaded point lies past every position of the graph
      obtain ⟨i, hi⟩ := (stored_of_mem hp).cascaded hdefault
      rw [hsame, hposition, hi] at hold
      exact cascade_point_notMem g.positions i hold
    · have hne : p ≠ q := by
        rintro rfl
        exact hk (stored_of_mem hp).id
      have hapart := hclear.forall hp hq hne
      exact hapart (.inl hdefault) (by rw [hplaced, hsame, hposition])

end Result

/-- What is promised of automatic placement: the search ends at the first
free point, and no node it places overlaps. -/
structure PlacesApart (g : Graph Sub) (m : GraphMutation Sub) (g' : Graph Sub) : Prop where
  search : ∀ taken index,
    FirstFree g.positions taken index (next_cascade_position g.positions index taken)
  apart : NoOverlap m g'

theorem auto_placement_iff {reg : NodeRegistry} {g g' : Graph Sub} {m : GraphMutation Sub}
    (h : apply_mutation reg g m = .ok g') :
    PlacesApart g m g' ↔ ∀ pre node post, m.add_nodes = pre ++ node :: post →
      Spared g.positions pre node := by
  obtain ⟨kept, placed, kept_edges, ha⟩ := apply_mutation_spec h
  have hstart : Handed g.positions (claimed_by ([] : List (Node Sub))) [] 0 g.positions :=
    Handed.start fun _ => Iff.rfl
  have hclear := @Handed.clear_iff _ _ _ _ _ _ m.add_nodes hstart rfl
  simp only [List.not_mem_nil, not_false_eq_true, implies_true, true_and, List.nil_append]
    at hclear
  have happart : NoOverlap m g' ↔ ∀ pre node post, m.add_nodes = pre ++ node :: post →
      Spared g.positions pre node := ha.noOverlap_iff.trans hclear
  rw [← happart]
  exact ⟨PlacesApart.apart, fun hno => ⟨fun taken index => cascade_loop_free _ taken index, hno⟩⟩

/-- Two nodes for an empty canvas, one left to be placed and one put at
`(60, 60)`. -/
def default_then_given : GraphMutation Empty :=
  { base_version := 0
    add_nodes := [{ id := "a", type := "t" }, { id := "b", type := "t", position := ⟨60, 60⟩ }] }

/-- The same two nodes the other way round. -/
def given_then_default : GraphMutation Empty :=
  { base_version := 0
    add_nodes := [{ id := "b", type := "t", position := ⟨60, 60⟩ }, { id := "a", type := "t" }] }

/-- Two nodes of one type, at `p` and at `q`. -/
def two_nodes (p q : Position) : Graph Empty :=
  { nodes := (Dict.empty.set "a" { id := "a", type := "t", position := p }).set "b"
      { id := "b", type := "t", position := q } }

theorem first_cascade_point : cascade_point [] 0 = ⟨60, 60⟩ := by
  simp [cascade_point, CASCADE_STEP, max_or_zero]

/-- The search has handed out `(60, 60)` before the node put there comes. -/
theorem default_then_given_overlaps :
    ¬ ∀ (reg : NodeRegistry) (g g' : Graph Empty) (m : GraphMutation Empty), g.Valid →
      apply_mutation reg g m = .ok g' → PlacesApart g m g' := by
  intro hclaim
  have happlied : apply_mutation (fun _ => none) ({} : Graph Empty) default_then_given
      = .ok (two_nodes (cascade_point [] 0) ⟨60, 60⟩) := rfl
  rw [first_cascade_point] at happlied
  have hvalid : ({} : Graph Empty).Valid := Graph.validate_structure_eq_ok.mp rfl
  have happart := (hclaim _ _ _ _ hvalid happlied).apart
  exact happart { id := "a", type := "t" } List.mem_cons_self rfl _ rfl "b" _ (by decide) rfl rfl

/-- The other way round the search goes past that point. -/
theorem given_then_default_apart :
    ∃ g', apply_mutation (fun _ => none) ({} : Graph Empty) given_then_default = .ok g' ∧
      PlacesApart {} given_then_default g' := by
  have happlied : apply_mutation (fun _ => none) ({} : Graph Empty) given_then_default = .ok _ :=
    rfl
  refine ⟨_, happlied, (auto_placement_iff happlied).mpr ?_⟩
  have hfirst : ∀ node : Node Empty, Spared [] [] node := fun _ _ _ _ _ => Nat.zero_le _
  refine forall_entry_cons.mpr ⟨hfirst _, forall_entry_cons.mpr ⟨?_, by simp⟩⟩
  exact fun _ hne => absurd rfl hne

end EmergentFlow
