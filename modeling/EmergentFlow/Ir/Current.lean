import EmergentFlow.Ir.MigrateLaws

/-!
# Ir — Current

The schema version through the validator and back: a graph read from a
document that is current on every level is current on every level itself, and
the other way round for a graph that is written.
-/

namespace EmergentFlow.Wire

variable {Sub : Type}

/-- The graph is at the current version, and its inner graphs satisfy `sub`. -/
structure Graph.CurrentWith (sub : Sub → Prop) (g : Graph Sub) : Prop where
  version : g.schema_version = CURRENT_SCHEMA_VERSION
  inner : ∀ key node s, g.nodes.get? key = some node → node.subgraph = some s → sub s

/-- The graph is at the current version on every level. -/
def Current : (n : Nat) → Loaded n → Prop
  | 0 => fun _ => True
  | n + 1 => Graph.CurrentWith (Current n)

/-! ## Reading -/

theorem Node.subgraph_of_decode {co : Coercions} {sub : Model Sub} {place : Place} {j : Json}
    {node : Node Sub} (h : (Node.codec co sub place).decode j = some node) {s : Sub}
    (hs : node.subgraph = some s) : ∃ inner, j.get? "subgraph" = some inner ∧
      (sub.codec (place ++ ["subgraph"])).decode inner = some s := by
  obtain ⟨members, rfl, hread⟩ := Fields.object_eq_some (Codec.iso_eq_some (Codec.reword_eq_some h))
  simp only [fields, Fields.optional_eq_some, Fields.required_eq_some] at hread
  obtain ⟨-, -, -, -, -, -, -, -, hfield, -⟩ := hread
  rw [hs] at hfield
  rcases Codec.member_eq_some hfield with hnone | ⟨inner, hinner, hdecode⟩
  · cases hnone
  · exact ⟨inner, hinner, Codec.nullable_eq_some hdecode⟩

theorem Graph.decode_cases {co : Coercions} {sub : Model Sub} {place : Place} {j : Json}
    {g : Graph Sub} (h : (Graph.codec co sub place).decode j = some g) :
    ∃ doc, j = .obj doc ∧
      Codec.member doc "schema_version" (some CURRENT_SCHEMA_VERSION) co.int
        = some g.schema_version ∧
      Codec.member doc "nodes" (some Dict.empty)
        (Codec.dict fun key => Node.codec co sub (place ++ ["nodes", key])).decode
        = some g.nodes := by
  obtain ⟨doc, rfl, hread⟩ :=
    Fields.object_eq_some (Codec.iso_eq_some (Codec.refine_eq_some (Codec.reword_eq_some h)))
  simp only [fields, Fields.optional_eq_some] at hread
  obtain ⟨hversion, -, -, hnodes, -⟩ := hread
  exact ⟨doc, rfl, hversion, hnodes⟩

theorem Loaded.decode_obj {co : Coercions} {n : Nat} {place : Place} {j : Json} {s : Loaded n}
    (h : ((Loaded.model co n).codec place).decode j = some s) : ∃ doc, j = .obj doc := by
  cases n with
  | zero => cases h
  | succ n =>
      obtain ⟨doc, hdoc, -⟩ := Graph.decode_cases h
      exact ⟨doc, hdoc⟩

/-- An inner graph that was read stands in the document. -/
theorem Graph.inner_of_decode {co : Coercions} {n : Nat} {place : Place} {doc : Members}
    {g : Graph (Loaded n)}
    (h : (Graph.codec co (Loaded.model co n) place).decode (.obj doc) = some g)
    {key : String} {node : Node (Loaded n)} {s : Loaded n} (hnode : g.nodes.get? key = some node)
    (hs : node.subgraph = some s) : ∃ inner ∈ subgraph_dicts doc, ∃ place',
      ((Loaded.model co n).codec place').decode (.obj inner) = some s := by
  obtain ⟨doc', heq, -, hnodes⟩ := Graph.decode_cases h
  cases heq
  rcases Codec.member_eq_some hnodes with hempty | ⟨j, hlookup, hdecode⟩
  · rw [← Option.some.inj hempty] at hnode
    cases hnode
  · obtain ⟨nodes, j', rfl, hmem, hj'⟩ := Codec.dict_eq_some hdecode hnode
    obtain ⟨inner, hinner, hsub⟩ := Node.subgraph_of_decode hj' hs
    obtain ⟨members, rfl⟩ := Loaded.decode_obj hsub
    refine ⟨members, ?_, _, hsub⟩
    rw [subgraph_dicts, hlookup]
    exact List.mem_filterMap.mpr ⟨_, hmem, by rw [subgraph_dict, hinner]⟩

/-- What is read from a current document is current. -/
theorem current_of_decode {co : Coercions} {n : Nat} {place : Place} {doc : Members} {s : Loaded n}
    (hdoc : CurrentDoc n doc) (h : ((Loaded.model co n).codec place).decode (.obj doc) = some s) :
    Current n s := by
  induction n generalizing place doc with
  | zero => trivial
  | succ n ih =>
      constructor
      · obtain ⟨doc', heq, hversion, -⟩ := Graph.decode_cases h
        cases heq
        rw [Codec.member, hdoc.1] at hversion
        exact (Option.some.inj ((co.int_self _).symm.trans hversion)).symm
      · intro key node inner hnode hinner
        obtain ⟨members, hmem, place', hdecode⟩ := Graph.inner_of_decode h hnode hinner
        exact ih (hdoc.2 members hmem) hdecode

/-! ## Writing -/

theorem subgraph_dict_dump {dump : Sub → Json} {node : Node Sub} {members : Members}
    (h : subgraph_dict (node.dump dump) = some members) :
    ∃ s, node.subgraph = some s ∧ dump s = .obj members := by
  have hget : (node.dump dump).get? "subgraph" = some ((node.subgraph.map dump).getD .null) := rfl
  rw [subgraph_dict, hget] at h
  cases hs : node.subgraph with
  | none =>
      rw [hs] at h
      cases h
  | some s =>
      rw [hs] at h
      refine ⟨s, rfl, ?_⟩
      split at h
      next sub hsub =>
        cases h
        exact Option.some.inj hsub
      next => cases h

/-- An inner graph of a document that is written is that of a node. -/
theorem Graph.inner_of_members {dump : Sub → Json} {g : Graph Sub} {members : Members}
    (h : members ∈ subgraph_dicts (g.members dump)) : ∃ key node s,
      g.nodes.get? key = some node ∧ node.subgraph = some s ∧ dump s = .obj members := by
  have hlookup : (g.members dump).lookup "nodes"
      = some (.obj (g.nodes.entries.map fun m => (m.1, m.2.dump dump))) := rfl
  rw [subgraph_dicts, hlookup] at h
  obtain ⟨m, hm, hdict⟩ := List.mem_filterMap.mp h
  obtain ⟨entry, hentry, rfl⟩ := List.mem_map.mp hm
  obtain ⟨s, hs, hdump⟩ := subgraph_dict_dump hdict
  exact ⟨entry.1, entry.2, s, g.nodes.mem_entries_iff.mp hentry, hs, hdump⟩

/-- What is written of a current graph is current, however deep one looks. -/
theorem currentDoc_of_dump {co : Coercions} {n : Nat} {s : Loaded n} {doc : Members}
    (hcurrent : Current n s) (h : (Loaded.model co n).dump s = .obj doc) (m : Nat) :
    CurrentDoc m doc := by
  induction n generalizing doc m with
  | zero => cases s
  | succ n ih =>
      cases h
      cases m with
      | zero => trivial
      | succ m =>
          refine ⟨?_, fun inner hinner => ?_⟩
          · rw [← hcurrent.version]
            rfl
          · obtain ⟨key, node, s', hnode, hs', hdump⟩ := Graph.inner_of_members hinner
            exact ih (hcurrent.inner key node s' hnode hs') hdump m

end EmergentFlow.Wire
