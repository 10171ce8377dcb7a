import EmergentFlow.Server.StreamStep

/-!
# Server — StreamRun

What holds of the nodes a run visits once the guards have passed (`Scope`),
and of the tables of the walk between two visits (`Tables`): exactly the
visited nodes have a status, and exactly those that are ok have results.
-/

namespace EmergentFlow

variable {Sub V C ε : Type}

/-! ## The nodes in scope -/

/-- The sources of one IN port of node `id`. -/
def Graph.port_sources (g : Graph Sub) (id : String) (port : Port) : List PortRef :=
  g.sources ⟨id, port.id⟩

/-- The nodes of a run, in an order that puts producers first, with the
wiring of their IN ports. -/
structure Scope (g : Graph Sub) (w : WiringMap) (order : List String) : Prop where
  nodup : order.Nodup
  node : ∀ id ∈ order, ∃ node, g.nodes.get? id = some node
  node_id : ∀ id node, g.nodes.get? id = some node → node.id = id
  producers : ∀ pre id post, order = pre ++ id :: post → ∀ a, g.Feeds a id → a ∈ order → a ∈ pre
  wired : ∀ id node, g.nodes.get? id = some node →
    Wired w node (g.port_sources id) node.in_ports
  source_name : ∀ target src, src ∈ g.sources target →
    ∃ port_name, g.source_port_name src = .ok port_name

/-- A source of an IN port is an OUT port with a name. -/
theorem Graph.Valid.source_port_name {g : Graph Sub} (hv : g.Valid) {target src : PortRef}
    (h : src ∈ g.sources target) : ∃ port_name, g.source_port_name src = .ok port_name := by
  obtain ⟨id, e, he, -, rfl⟩ := Graph.mem_sources.mp h
  have hsource := hv.source_out he
  unfold Graph.port_direction at hsource
  obtain ⟨node, hnode, hport⟩ := Option.bind_eq_some_iff.mp hsource
  obtain ⟨port, hport, -⟩ := Option.map_eq_some_iff.mp hport
  have hmem := List.mem_reverse.mp (List.mem_of_find?_eq_some hport)
  have hid := List.find?_some hport
  cases hfind : node.ports.find? (·.id = e.source.port_id) with
  | none => exact absurd hid (by simpa using List.find?_eq_none.mp hfind port hmem)
  | some port' =>
      refine ⟨port'.name, ?_⟩
      simp [Graph.source_port_name, hnode, Node.port_name, hfind, bind, Except.bind]

/-- Dropping nodes from an order keeps producers first. -/
theorem respects_filter {links : List (String × String)} {order : List String}
    (h : Kahn.Respects links order) (hnodup : order.Nodup) (p : String → Bool) :
    ∀ pre id post, order.filter p = pre ++ id :: post → ∀ a, (a, id) ∈ links →
      a ∈ order.filter p → a ∈ pre := by
  intro pre id post hsplit a ha hmem
  obtain ⟨l₁, l₂, rfl, hpre, hpost⟩ := List.filter_eq_append_iff.mp hsplit
  obtain ⟨l₃, l₄, rfl, hskip, hid, hrest⟩ := List.filter_eq_cons_iff.mp hpost
  have hbefore : a ∈ l₁ ++ l₃ := h (l₁ ++ l₃) id l₄ (by simp) (a, id) ha rfl
  rcases List.mem_append.mp hbefore with hin | hin
  · rw [← hpre]
    exact List.mem_filter.mpr ⟨hin, (List.mem_filter.mp hmem).2⟩
  · exact absurd (List.mem_filter.mp hmem).2 (hskip a hin)

/-- A graph whose wiring could be built, with an order that respects it. -/
theorem Graph.Valid.scope {g : Graph Sub} (hv : g.Valid) {order : List String}
    (horder : topological_sort g = .ok order) {w : WiringMap} (hw : build_wiring_map g = .ok w)
    (p : String → Bool) : Scope g w (order.filter p) := by
  obtain ⟨hperm, hrespects⟩ := topological_sort_eq_ok hv horder
  have hnodup : order.Nodup := hperm.nodup_iff.mpr g.nodes.nodup_keys
  refine ⟨hnodup.filter p, ?_, fun id node h => hv.node_id h, respects_filter hrespects hnodup p,
    ?_, fun target src h => hv.source_port_name h⟩
  · intro id hid
    exact (Dict.mem_keys_iff _).mp (hperm.mem_iff.mp (List.mem_of_mem_filter hid))
  · intro id node hnode
    have hid := hv.node_id hnode
    subst hid
    exact ⟨fun port hport => (build_wiring_map_eq_ok hw hnode hport).1,
      fun port hport => (build_wiring_map_eq_ok hw hnode hport).2⟩

/-- The guards passed: the run visits a scope. -/
theorem Server.prepare_scope {sv : Server Sub V C ε} {g : Graph Sub} (hv : g.Valid)
    {only : Option (List String)} {order : List String} {w : WiringMap}
    (h : sv.prepare g only = .ok (order, w)) : Scope g w order ∧
      (∀ id, id ∈ order ↔ (∃ node, g.nodes.get? id = some node) ∧ ∀ ids ∈ only, id ∈ ids) := by
  simp only [Server.prepare, Checks.bind_eq_ok] at h
  obtain ⟨-, -, -, -, order', horder, w', hw, -, -, hpair⟩ := h
  have hkeys := (topological_sort_eq_ok hv horder).1
  have hmem : ∀ id, id ∈ order' ↔ ∃ node, g.nodes.get? id = some node := fun id => by
    rw [hkeys.mem_iff, Dict.mem_keys_iff]
  cases only with
  | none =>
      simp only [pure, Except.pure, Except.ok.injEq, Prod.mk.injEq] at hpair
      obtain ⟨rfl, rfl⟩ := hpair
      have hscope := hv.scope horder hw fun _ => true
      rw [List.filter_true] at hscope
      exact ⟨hscope, fun id => by simp [hmem]⟩
  | some ids =>
      simp only [pure, Except.pure, Except.ok.injEq, Prod.mk.injEq] at hpair
      obtain ⟨rfl, rfl⟩ := hpair
      refine ⟨hv.scope horder hw _, fun id => ?_⟩
      rw [List.mem_filter, hmem]
      simp

section Scope

variable {g : Graph Sub} {w : WiringMap} {order done rest : List String} {id : String}

/-- A node about to be visited has not been. -/
theorem Scope.fresh (hs : Scope g w order) (hsplit : order = done ++ id :: rest) : id ∉ done := by
  intro hmem
  have hnodup := hs.nodup
  rw [hsplit, List.nodup_append] at hnodup
  exact hnodup.2.2 id hmem id List.mem_cons_self rfl

/-- The producers of a node about to be visited have been visited. -/
theorem Scope.producer_done (hs : Scope g w order) (hsplit : order = done ++ id :: rest)
    {a : String} (ha : g.Feeds a id) (hmem : a ∈ order) : a ∈ done :=
  hs.producers done id rest hsplit a ha hmem

/-- The producers of a visited node have been visited. -/
theorem Scope.producer_of_done (hs : Scope g w order) (hsplit : order = done ++ rest)
    {a b : String} (hb : b ∈ done) (ha : g.Feeds a b) (hmem : a ∈ order) : a ∈ done := by
  obtain ⟨l₁, l₂, rfl⟩ := List.append_of_mem hb
  have := hs.producers l₁ b (l₂ ++ rest) (by simp [hsplit]) a ha hmem
  exact List.mem_append_left _ this

end Scope

/-! ## The tables -/

section Tables

variable {sv : Server Sub V C ε} {g : Graph Sub} {w : WiringMap} {node : Node Sub} {id : String}
  {st : WalkState sv} {total index : Nat} {t : Trace sv}

/-- The tables when the nodes `done` have been visited. -/
structure Tables (done : List String) (st : WalkState sv) : Prop where
  visited : ∀ id, (∃ status, st.node_status.get? id = some status) ↔ id ∈ done
  results : ∀ id, (st.node_status.get? id = some .OK ∨ st.node_status.get? id = some .CACHED) ↔
    ∃ outputs, st.node_results.get? id = some outputs

theorem Tables.init (cache : sv.cache.State) (artifacts : sv.artifacts.State) :
    Tables [] { cache, artifacts } := ⟨fun id => by simp, fun id => by simp⟩

/-- A visit changes no entry of another node. -/
theorem Visited.frame (h : Visited g w total index id node st t) {other : String}
    (hne : other ≠ id) : t.state.node_status.get? other = st.node_status.get? other ∧
      t.state.node_results.get? other = st.node_results.get? other ∧
      t.state.node_hashes.get? other = st.node_hashes.get? other := by
  cases h with
  | escaped bind | interrupted bind interrupted => exact ⟨rfl, rfl, rfl⟩
  | skipped bind => exact ⟨Dict.get?_set_ne _ _ (Ne.symm hne), rfl, rfl⟩
  | ran bind ran =>
      cases ran with
      | failed miss run caught kept =>
          exact ⟨Dict.get?_set_ne _ _ (Ne.symm hne), rfl, Dict.get?_set_ne _ _ (Ne.symm hne)⟩
      | hit hash found kept | fresh miss run stored =>
          exact ⟨Dict.get?_set_ne _ _ (Ne.symm hne), Dict.get?_set_ne _ _ (Ne.symm hne),
            Dict.get?_set_ne _ _ (Ne.symm hne)⟩

/-- A visit that does not end the generator gives the node its status. -/
theorem Visited.status (h : Visited g w total index id node st t) (hstay : t.escaped = none) :
    ∃ status, t.state.node_status.get? id = some status := by
  cases h with
  | escaped bind | interrupted bind interrupted => cases hstay
  | skipped bind => exact ⟨_, Dict.get?_set_self _ _ _⟩
  | ran bind ran =>
      cases ran with
      | failed miss run caught kept => exact ⟨_, Dict.get?_set_self _ _ _⟩
      | hit hash found kept | fresh miss run stored => exact ⟨_, Dict.get?_set_self _ _ _⟩

theorem Visited.tables (h : Visited g w total index id node st t) (hstay : t.escaped = none)
    {done : List String} (hid : id ∉ done) (ht : Tables done st) :
    Tables (done ++ [id]) t.state := by
  have hunseen : st.node_status.get? id = none := by
    cases hstatus : st.node_status.get? id with
    | none => rfl
    | some status => exact absurd ((ht.visited id).mp ⟨status, hstatus⟩) hid
  -- a node without a status has no results either
  have hempty : st.node_results.get? id = none := by
    cases hresults : st.node_results.get? id with
    | none => rfl
    | some outputs =>
        have := (ht.results id).mpr ⟨outputs, hresults⟩
        simp [hunseen] at this
  constructor
  · intro other
    by_cases hne : other = id
    · subst hne
      simpa using h.status hstay
    · rw [(h.frame hne).1, ht.visited other]
      simp [hne]
  · intro other
    by_cases hne : other = id
    · subst hne
      cases h with
      | escaped bind | interrupted bind interrupted => cases hstay
      | skipped bind => simp [hempty]
      | ran bind ran =>
          cases ran with
          | failed miss run caught kept => simp [WalkState.fail, hempty]
          | hit hash found kept | fresh miss run stored => simp [WalkState.record]
    · rw [(h.frame hne).1, (h.frame hne).2.1]
      exact ht.results other

/-- A source that has results has the value they hold at its port. -/
theorem Tables.source_value (ht : Tables done st) {src : PortRef} {outputs : Dict String V}
    (hresults : st.node_results.get? src.node_id = some outputs) {v : V}
    (hvalue : st.value g src = .ok (some v)) :
    ∃ port_name, g.source_port_name src = .ok port_name ∧ outputs.get? port_name = some v := by
  have hstatus := (ht.results src.node_id).mpr ⟨outputs, hresults⟩
  have hsource : (g.source_value st.node_results src).mapError Stop.raise = .ok v := by
    rcases hstatus with hstatus | hstatus <;>
      simp only [WalkState.value, upstream_value, hstatus] at hvalue <;>
      obtain ⟨v', hv', hpure⟩ := Checks.bind_eq_ok.mp hvalue <;> cases hpure <;> exact hv'
  cases hname : g.source_port_name src with
  | error e => simp [Graph.source_value, hname, bind, Except.bind, Except.mapError] at hsource
  | ok port_name =>
      refine ⟨port_name, rfl, ?_⟩
      cases hget : outputs.get? port_name with
      | none =>
          simp [Graph.source_value, hname, Results.value, hresults, hget, bind, Except.bind,
            Except.mapError] at hsource
      | some v' =>
          simp [Graph.source_value, hname, Results.value, hresults, hget, bind, Except.bind,
            Except.mapError] at hsource
          rw [hsource]

end Tables

end EmergentFlow
