import EmergentFlow.Ir.Inverse

/-!
# Ir — RoundTrip

When applying `invert_mutation` leads back to the original graph
(`emergentflow/ir/mutation.py`). Three things decide it: whether a removed
node comes back to its own position, whether params of one name agree,
and whether the original nodes meet their contracts.
-/

namespace EmergentFlow

variable {Sub : Type}

/-! ## The way back -/

/-- The positions a mutation leaves: those of the nodes it keeps and those
it gives its new nodes. -/
def left_positions (g : Graph Sub) (m : GraphMutation Sub) : List Position :=
  (g.nodes.filter fun id _ => id ∉ m.remove_nodes).values.map (·.position)
    ++ m.add_nodes.map (·.position)

/-- The condition under which the inverse of `m` leads back to `g`. -/
structure RoundTrips (reg : NodeRegistry) (g : Graph Sub) (m : GraphMutation Sub) : Prop where
  lands_home : LandsHome (left_positions g m) (removed_positions g m)
  params_agree : ∀ {k updates n}, m.set_params.get? k = some updates →
    g.nodes.get? k = some n → ParamsAgree n.params updates.keys
  contract : ∀ {k n}, k ∈ m.set_params.keys → g.nodes.get? k = some n →
    contract_errors reg n = []

theorem Graph.mem_positions {g : Graph Sub} {p : Position} :
    p ∈ g.positions ↔ ∃ k, (g.nodes.get? k).map (·.position) = some p := by
  simp only [Graph.positions, List.mem_map, Dict.mem_values_iff, Option.map_eq_some_iff]
  constructor
  · rintro ⟨n, ⟨k, hk⟩, hp⟩
    exact ⟨k, n, hk, hp⟩
  · rintro ⟨k, n, hk, hp⟩
    exact ⟨n, ⟨k, hk⟩, hp⟩

section Back

variable {reg : NodeRegistry} {g g' : Graph Sub} {m m' : GraphMutation Sub}
  {kept placed : Dict String (Node Sub)} {kept_edges : Dict String Edge}

theorem Applied.kept_get? (ha : Applied reg g m kept placed kept_edges g') (k : String) :
    kept.get? k = if k ∈ m.remove_nodes then none else g.nodes.get? k := by
  split
  · rename_i hk
    exact ha.removed.gone k hk
  · rename_i hk
    exact ha.removed.frame k hk

/-- The positions of the result: those kept and those of the placed nodes. -/
theorem Applied.mem_positions (ha : Applied reg g m kept placed kept_edges g') {p : Position} :
    p ∈ g'.positions ↔
      p ∈ (g.nodes.filter fun id _ => id ∉ m.remove_nodes).values.map (·.position) ∨
        p ∈ (place_nodes g.positions m.add_nodes 0 g.positions).map (·.position) := by
  simp only [Graph.mem_positions, ha.params_set.position, List.mem_map, Dict.mem_values_iff,
    Dict.get?_filter]
  constructor
  · rintro ⟨k, hk⟩
    obtain ⟨n, hn, hp⟩ := Option.map_eq_some_iff.mp hk
    by_cases hadd : k ∈ (place_nodes g.positions m.add_nodes 0 g.positions).map (·.id)
    · obtain ⟨n', hn', rfl⟩ := List.mem_map.mp hadd
      rw [ha.added.here n' hn', Option.some.injEq] at hn
      exact .inr ⟨n', hn', by rw [hn, hp]⟩
    · rw [ha.added.frame k hadd, ha.kept_get?] at hn
      split at hn
      · cases hn
      · rename_i hrem
        exact .inl ⟨n, ⟨k, by simp [hn, hrem]⟩, hp⟩
  · rintro (⟨n, ⟨k, hk⟩, hp⟩ | ⟨n, hn, hp⟩)
    · rw [Option.filter_eq_some_iff] at hk
      obtain ⟨hk, hrem⟩ := hk
      rw [decide_eq_true_eq] at hrem
      refine ⟨k, ?_⟩
      -- an added node is free of its id, and this one has it
      have hadd : k ∉ (place_nodes g.positions m.add_nodes 0 g.positions).map (·.id) := by
        intro hadd
        obtain ⟨n', hn', rfl⟩ := List.mem_map.mp hadd
        have hfresh := ha.added.fresh n' hn'
        rw [ha.kept_get?, if_neg hrem, hk] at hfresh
        cases hfresh
      rw [ha.added.frame k hadd, ha.kept_get?, if_neg hrem, hk, Option.map_some, hp]
    · exact ⟨n.id, by rw [ha.added.here n hn, Option.map_some, hp]⟩

theorem lt_zero_of_cascade_default {ps : List Position} {p : Position} {k : Nat} (hp : p ∈ ps)
    (h : cascade_point ps k = {}) : p.x < 0 := by
  have hlt := lt_cascade_point hp k
  rwa [h] at hlt

/-- The condition on positions may be read off the mutation instead of the
graph it leaves. -/
theorem Applied.landsHome_iff (ha : Applied reg g m kept placed kept_edges g')
    (hi : Inverted g m m') :
    LandsHome g'.positions (removed_positions g m) ↔
      LandsHome (left_positions g m) (removed_positions g m) := by
  by_cases hadd : ({} : Position) ∈ m.add_nodes.map (·.position)
  · by_cases hrem : ({} : Position) ∈ removed_positions g m
    · -- a new node is cascaded past the removed one at the origin, so from
      -- neither list of positions does the cascade return there
      have horigin : ({} : Position) ∈ g.positions := by
        rw [← hi.positions] at hrem
        obtain ⟨n, hn, hp⟩ := List.mem_map.mp hrem
        exact Graph.mem_positions.mpr ⟨n.id, by rw [hi.node n hn, Option.map_some, hp]⟩
      obtain ⟨r, hr⟩ := cascaded_of_default g.positions g.positions 0 hadd
      have hpos : 0 < (cascade_point g.positions r).x := lt_cascade_point horigin r
      have hleft : ∀ k, cascade_point (left_positions g m) k ≠ {} := by
        intro k hk
        exact absurd (lt_zero_of_cascade_default (List.mem_append_right _ hadd) hk) (lt_irrefl _)
      have hafter : ∀ k, cascade_point g'.positions k ≠ {} := by
        intro k hk
        exact absurd (lt_zero_of_cascade_default (ha.mem_positions.mpr (.inr hr)) hk)
          (not_lt_of_gt hpos)
      simp only [LandsHome, hrem, not_true_eq_false, false_or, hleft, hafter, false_and,
        exists_false, and_false]
    · exact ⟨fun _ => .inl hrem, fun _ => .inl hrem⟩
  · have hsame : ∀ p, p ∈ g'.positions ↔ p ∈ left_positions g m := by
      intro p
      rw [ha.mem_positions, place_nodes_of_no_default hadd, left_positions, List.mem_append]
    simp only [LandsHome, cascade_point_congr hsame]

/-- The nodes of the result that were not added: the kept ones, with their
params updated. -/
theorem Applied.get?_of_not_added (ha : Applied reg g m kept placed kept_edges g') {k : String}
    (hadd : k ∉ m.add_nodes.map (·.id)) :
    g'.nodes.get? k = if k ∈ m.remove_nodes then none else
      match m.set_params.get? k with
      | some updates => (g.nodes.get? k).map (·.with_params updates)
      | none => g.nodes.get? k := by
  rw [← place_nodes_ids g.positions g.positions m.add_nodes 0] at hadd
  have hplaced : placed.get? k = kept.get? k := ha.added.frame k hadd
  cases hset : m.set_params.get? k with
  | none =>
      have hnot : k ∉ m.set_params.entries.map Prod.fst := (Dict.get?_eq_none_iff _).mp hset
      simp only [ha.params_set.frame k hnot, hplaced, ha.kept_get?]
  | some updates =>
      obtain ⟨n, hn, -, hn'⟩ := ha.params_set.here _ ((Dict.mem_entries_iff _).mpr hset)
      rw [hplaced, ha.kept_get?] at hn
      split at hn
      · cases hn
      · rename_i hrem
        simp only [if_neg hrem, hn', hn, Option.map_some]

/-- The added nodes are in the result. -/
theorem Applied.get?_of_added (ha : Applied reg g m kept placed kept_edges g') {k : String}
    (hadd : k ∈ m.add_nodes.map (·.id)) : ∃ n, g'.nodes.get? k = some n := by
  rw [← place_nodes_ids g.positions g.positions m.add_nodes 0] at hadd
  obtain ⟨n, hn, rfl⟩ := List.mem_map.mp hadd
  have hmap := ha.params_set.position n.id
  rw [ha.added.here n hn, Option.map_some, Option.map_eq_some_iff] at hmap
  obtain ⟨n', hn', -⟩ := hmap
  exact ⟨n', hn'⟩

/-- Writing the old values over the node that the inverse meets, which carries
all their names, gives the original exactly when the params agree. -/
theorem Applied.rewritten_iff (ha : Applied reg g m kept placed kept_edges g') {k : String}
    {updates values : Dict String ParamValue} {n : Node Sub}
    (hset : m.set_params.get? k = some updates) (hn : g.nodes.get? k = some n)
    (hfirst : FirstValues n.params updates.keys values) :
    (∃ a, (if k ∈ m.remove_nodes then g.nodes.get? k else g'.nodes.get? k) = some a ∧
      a.blank_names values = [] ∧ a.with_params values = n) ↔
        ParamsAgree n.params updates.keys := by
  have hfix : n.with_params values = n ↔ ParamsAgree n.params updates.keys := by
    rw [← updated_params_first_iff hfirst]
    constructor
    · exact congrArg Node.params
    · intro h
      rw [Node.with_params, h]
  have hcarried : ∀ name ∈ values.keys, name ∈ n.params.map (·.name) := by
    intro name hname
    rw [hfirst.keys] at hname
    exact hfirst.carried hname
  by_cases hrem : k ∈ m.remove_nodes
  · simp only [if_pos hrem, hn, Option.some.injEq, exists_eq_left', hfix,
      blank_names_of_carried hcarried, true_and]
  · have hblank : (n.with_params updates).blank_names values = [] :=
      blank_names_of_carried fun name hname => mem_names_with_params (hcarried name hname)
    have htwice : (n.with_params updates).with_params values = n.with_params values := by
      simp only [Node.with_params]
      rw [updated_params_twice (fun name hname => hfirst.carried hname) hfirst.keys]
    have hmet : g'.nodes.get? k = some (n.with_params updates) := by
      rw [ha.get?_of_not_added (ha.not_added hn hrem), if_neg hrem]
      simp only [hset, hn, Option.map_some]
    simp only [if_neg hrem, hmet, Option.some.injEq, exists_eq_left', hblank, true_and, htwice, hfix]

/-- On the graph that `m` leaves, the inverse restores `g` under a
condition on `g` and `m` alone. -/
theorem Applied.restores_iff (ha : Applied reg g m kept placed kept_edges g')
    (hi : Inverted g m m') : Restores reg g' g m ↔ RoundTrips reg g m := by
  constructor
  · intro hr
    refine ⟨(ha.landsHome_iff hi).mp hr.lands_home, ?_, ?_⟩
    · intro k updates n hset hn
      obtain ⟨-, a, values, ha', hfirst, hblank, heq⟩ := hr.edited hset hn
      exact (ha.rewritten_iff hset hn hfirst).mp ⟨a, ha', hblank, heq⟩
    · intro k n hk hn
      obtain ⟨updates, hset⟩ := (Dict.mem_keys_iff _).mp hk
      exact (hr.edited hset hn).1
  · intro hr
    have hheader := ha.header
    refine {
      schema_version := by rw [hheader]
      paradigm := by rw [hheader]
      name := by rw [hheader]
      params := fun name => by rw [hheader]
      added := fun k hk => ha.get?_of_added hk
      added_edges := ?_
      removed := ?_, removed_edges := ?_, lands_home := (ha.landsHome_iff hi).mpr hr.lands_home
      untouched := ?_, untouched_edges := ?_, edited := ?_ }
    · intro k hk
      obtain ⟨e, he, rfl⟩ := List.mem_map.mp hk
      exact ⟨e, ha.added_edges.here e he⟩
    · intro k hrem hadd
      rw [ha.get?_of_not_added hadd, if_pos hrem]
    · intro k hrem hadd
      rw [ha.added_edges.frame k hadd, ha.removed_edges.gone k hrem]
    · intro k hrem hadd hset
      rw [ha.get?_of_not_added hadd, if_neg hrem]
      simp only [hset]
    · intro k hrem hadd
      rw [ha.added_edges.frame k hadd, ha.removed_edges.frame k hrem]
    · intro k updates n hset hn
      obtain ⟨values, -, hfirst⟩ := hi.old_values hset hn
      obtain ⟨a, ha', hblank, heq⟩ := (ha.rewritten_iff hset hn hfirst).mpr (hr.params_agree hset hn)
      exact ⟨hr.contract ((Dict.mem_keys_iff _).mpr ⟨updates, hset⟩) hn, a, values, ha', hfirst,
        hblank, heq⟩

end Back

/-- A graph that `m` has just produced is restored under that condition. -/
theorem restores_iff_roundTrips {reg : NodeRegistry} {g g' : Graph Sub} {m m' : GraphMutation Sub}
    (hv : g.Valid) (ha : apply_mutation reg g m = .ok g') (hi : invert_mutation g m = .ok m') :
    Restores reg g' g m ↔ RoundTrips reg g m := by
  obtain ⟨kept, placed, kept_edges, happlied⟩ := apply_mutation_spec ha
  exact happlied.restores_iff (invert_mutation_spec hv hi)

/-- Applying the inverse succeeds and leads back to the original graph
exactly under `RoundTrips`. -/
theorem apply_invert_iff {reg : NodeRegistry} {g g' : Graph Sub} {m m' : GraphMutation Sub}
    (hv : g.Valid) (ha : apply_mutation reg g m = .ok g') (hi : invert_mutation g m = .ok m') :
    (∃ g'', apply_mutation reg g' m' = .ok g'' ∧ g''.Same g) ↔ RoundTrips reg g m := by
  obtain ⟨kept, placed, kept_edges, happlied⟩ := apply_mutation_spec ha
  have hinverted := invert_mutation_spec hv hi
  rw [← happlied.restores_iff hinverted]
  constructor
  · rintro ⟨g'', h, hsame⟩
    exact happlied.restores hinverted h hsame
  · intro hr
    exact happlied.leads_back hinverted hv hr

/-! ## Examples -/

/-- A graph of one node, at the given position. -/
def one_node (p : Position) : Graph Empty :=
  { nodes := Dict.empty.set "a" { id := "a", type := "t", position := p } }

def remove_a : GraphMutation Empty := { base_version := 0, remove_nodes := ["a"] }

def add_a (p : Position) : GraphMutation Empty :=
  { base_version := 0
    add_nodes := [{ id := "a", type := "t", position := p }]
    description := "Inverse mutation" }

/-- A removed node at the origin comes back somewhere else. -/
theorem apply_invert_origin :
    (one_node {}).Valid ∧ ∃ g' m', apply_mutation (fun _ => none) (one_node {}) remove_a = .ok g' ∧
      invert_mutation (one_node {}) remove_a = .ok m' ∧
      ¬ ∃ g'', apply_mutation (fun _ => none) g' m' = .ok g'' ∧ g''.Same (one_node {}) := by
  have hv : (one_node {}).Valid := Graph.validate_structure_eq_ok.mp rfl
  refine ⟨hv, { nodes := Dict.empty }, add_a {}, rfl, rfl, ?_⟩
  rintro ⟨g'', h, hsame⟩
  obtain ⟨back, restored, back_edges, hb⟩ := apply_mutation_spec h
  have hi : Inverted (one_node {}) remove_a (add_a {}) := invert_mutation_spec hv rfl
  have hplace := (place_nodes_eq_iff_landsHome (fun _ => Iff.rfl) _).mp (hi.lands_home hb hsame)
  rcases hplace with hnot | ⟨-, k, hk, -⟩
  · simp [add_a] at hnot
  · have hpos : 0 < (cascade_point [] k).x := by
      have hk0 : (0 : Rat) ≤ k := Nat.cast_nonneg k
      simp only [cascade_point, CASCADE_STEP, List.map_nil, max_or_zero]
      linarith
    rw [show cascade_point [] k = {} from hk] at hpos
    exact absurd hpos (lt_irrefl _)

/-- Rows wired into a model, the rows away from the origin. -/
def rows_and_model : Graph Empty :=
  { nodes := Dict.ofList [
      ("rows", { id := "rows", type := "data.load_csv", position := { x := 120 }
                 ports := [{ id := "out", name := "frame", direction := .OUT }] }),
      ("model", { id := "model", type := "ml.fit"
                  params := [{ name := "depth", type_token := "int", value := .int 3 },
                    { name := "target", type_token := "str", value := .str "y" }]
                  ports := [{ id := "in", name := "frame", direction := .IN }] })]
    edges := Dict.ofList [("e", { id := "e", source := ⟨"rows", "out"⟩, target := ⟨"model", "in"⟩ })] }

/-- Drops the rows with their edge, adds other rows and edits the model. -/
def swap_rows : GraphMutation Empty :=
  { base_version := 0
    add_nodes := [{ id := "other", type := "data.load_csv", position := { x := 120, y := 80 } }]
    remove_nodes := ["rows"]
    remove_edges := ["e"]
    set_params := Dict.ofList [("model", Dict.ofList [("depth", .int 5)])] }

/-- A node away from the origin, its edge and the edited param come back. -/
theorem apply_invert_away :
    ∃ g' m', apply_mutation (fun _ => none) rows_and_model swap_rows = .ok g' ∧
      invert_mutation rows_and_model swap_rows = .ok m' ∧
      ∃ g'', apply_mutation (fun _ => none) g' m' = .ok g'' ∧ g''.Same rows_and_model := by
  have hv : rows_and_model.Valid := Graph.validate_structure_eq_ok.mp rfl
  obtain ⟨g', ha⟩ :
      ∃ g', apply_mutation (fun _ => none) rows_and_model swap_rows = .ok g' := ⟨_, rfl⟩
  obtain ⟨m', hi⟩ : ∃ m', invert_mutation rows_and_model swap_rows = .ok m' := ⟨_, rfl⟩
  refine ⟨g', m', ha, hi, (apply_invert_iff hv ha hi).mpr ⟨.inl ?_, ?_, ?_⟩⟩
  · decide
  · intro k updates n hset hn p hp q hq hname _
    -- the model is the one node edited, and its params have names of their own
    obtain ⟨rfl, -⟩ : k = "model" ∧ updates = Dict.ofList [("depth", .int 5)] := by
      simpa using Dict.mem_of_get?_ofList hset
    obtain rfl : n = _ := (Option.some.inj hn).symm
    rcases List.mem_pair.mp hp with rfl | rfl <;> rcases List.mem_pair.mp hq with rfl | rfl <;>
      first | rfl | exact absurd hname (by decide)
  · intro k n _ _
    rfl

end EmergentFlow
