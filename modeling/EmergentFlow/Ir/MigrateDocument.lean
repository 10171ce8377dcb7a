import EmergentFlow.Ir.MigrateHeap

/-!
# Ir — MigrateDocument

What the migration of a whole document comes to (`migrate_document` of
`emergentflow/ir/migrate.py`). `Migrated` says it level by level without the walk: each
graph goes through the steps from its own version up to the current one, each once and
in order, and of its nodes only the inner graphs change, in the same way.
-/

namespace EmergentFlow.Wire

/-! ## The steps of a level -/

/-- A step and the version it leads to. -/
def apply_step (doc : Members) (v : Int) : Except MigrateError Members :=
  match migrations v with
  | none => .error .MigrationError
  | some step => .ok (Dict.setL "schema_version" (.int (v + 1)) (step doc))

/-- The versions from `found` up to the current one, which is left out. -/
def pending (found : Int) : List Int :=
  (List.range (CURRENT_SCHEMA_VERSION - found).toNat).map fun k : Nat => found + (k : Int)

theorem migrate_steps_eq (n : Nat) (v : Int) (doc : Members) :
    migrate_steps n v doc = ((List.range n).map fun k : Nat => v + (k : Int)).foldlM apply_step doc := by
  induction n generalizing v doc with
  | zero => rfl
  | succ n ih =>
      have hrange : (List.range (n + 1)).map (fun k : Nat => v + (k : Int)) =
          v :: (List.range n).map fun k : Nat => v + 1 + (k : Int) := by
        rw [List.range_succ_eq_map, List.map_cons, List.map_map]
        refine congrArg₂ List.cons (by simp) (List.map_congr_left fun k _ => ?_)
        simp only [Function.comp_apply, Nat.succ_eq_add_one, Nat.cast_add, Nat.cast_one]
        omega
      rw [hrange, List.foldlM_cons, migrate_steps, apply_step]
      cases migrations v with
      | none => rfl
      | some step => exact ih (v + 1) _

theorem migrate_found_eq {doc : Members} {i : Int} (hi : found_version doc = .int i)
    (hle : i ≤ CURRENT_SCHEMA_VERSION) :
    migrate_found doc (found_version doc) = (pending i).foldlM apply_step doc := by
  rw [hi, migrate_found, migrate_to_current, pending]
  split
  · next heq =>
      rw [heq, Int.sub_self]
      rfl
  · rw [if_neg (by omega), migrate_steps_eq]

/-! ## The document, level by level -/

/-- A node with an inner graph gets its migration, any other node stays. -/
def NodeMigrated (inner : Members → Members → Prop) (node node' : Json) : Prop :=
  match node with
  | .obj members =>
      match members.lookup "subgraph" with
      | some (.obj sub) =>
          ∃ sub', inner sub sub' ∧ node' = .obj (Dict.setL "subgraph" (.obj sub') members)
      | _ => node' = node
  | _ => node' = node

def NodesMigrated (inner : Members → Members → Prop) (doc doc' : Members) : Prop :=
  match doc.lookup "nodes" with
  | some (.obj nodes) =>
      ∃ nodes', doc' = Dict.setL "nodes" (.obj nodes') doc ∧
        List.Forall₂ (fun m m' => m'.1 = m.1 ∧ NodeMigrated inner m.2 m'.2) nodes nodes'
  | _ => doc' = doc

/-- Down to `n` levels of nested graphs, the one document is the other migrated. -/
def Migrated : Nat → Members → Members → Prop
  | 0, _, _ => True
  | n + 1, doc, doc' =>
      ∃ i mid, found_version doc = .int i ∧ (pending i).foldlM apply_step doc = .ok mid ∧
        NodesMigrated (Migrated n) mid doc'

theorem node_migrated {level : Members → Except MigrateError Members}
    {inner : Members → Members → Prop} {node node' : Json}
    (hinner : ∀ sub sub', subgraph_dict node = some sub → level sub = .ok sub' → inner sub sub')
    (h : migrate_node level node = .ok node') : NodeMigrated inner node node' := by
  cases node with
  | obj members =>
      rw [migrate_node] at h
      rw [NodeMigrated]
      cases hlookup : members.lookup "subgraph" with
      | none =>
          rw [hlookup] at h
          exact (Except.ok.inj h).symm
      | some value =>
          rw [hlookup] at h
          cases value with
          | obj sub =>
              obtain ⟨sub', hlevel, rfl⟩ := Checks.map_eq_ok.mp h
              have hsub : subgraph_dict (.obj members) = some sub := by
                simp only [subgraph_dict, Json.get?, hlookup]
              exact ⟨sub', hinner sub sub' hsub hlevel, rfl⟩
          | _ => exact (Except.ok.inj h).symm
  | _ => exact (Except.ok.inj h).symm

theorem nodes_migrated {level : Members → Except MigrateError Members}
    {inner : Members → Members → Prop} {doc doc' : Members}
    (hinner : ∀ sub ∈ subgraph_dicts doc, ∀ sub', level sub = .ok sub' → inner sub sub')
    (h : migrate_nodes level doc = .ok doc') : NodesMigrated inner doc doc' := by
  rw [migrate_nodes] at h
  rw [NodesMigrated]
  cases hlookup : doc.lookup "nodes" with
  | none =>
      rw [hlookup] at h
      exact (Except.ok.inj h).symm
  | some value =>
      rw [hlookup] at h
      cases value with
      | obj nodes =>
          obtain ⟨nodes', hmap, rfl⟩ := Checks.map_eq_ok.mp h
          have hmem : ∀ m ∈ nodes, ∀ sub, subgraph_dict m.2 = some sub → sub ∈ subgraph_dicts doc :=
            fun m hm sub hsub => by
              rw [subgraph_dicts, hlookup]
              exact List.mem_filterMap.mpr ⟨m, hm, hsub⟩
          refine ⟨nodes', rfl,
            ((List.forall₂_and_left _ _).mpr ⟨hmem, Checks.mapM_eq_ok.mp hmap⟩).imp ?_⟩
          rintro m m' ⟨hsubs, hm⟩
          obtain ⟨node', hnode, rfl⟩ := Checks.map_eq_ok.mp hm
          exact ⟨rfl, node_migrated (fun sub sub' hsub => hinner sub (hsubs sub hsub) sub') hnode⟩
      | _ => exact (Except.ok.inj h).symm

/-- A migration that returns takes each level through its steps. -/
theorem migrated_of_ok {room : Nat} {doc doc' : Members}
    (hlevels : ∀ sub, some sub ∈ levels room doc → not_newer sub = true)
    (h : migrate_graph_level room doc = .ok doc') (n : Nat) : Migrated n doc doc' := by
  induction room generalizing doc doc' n with
  | zero => cases h
  | succ room ih =>
      cases n with
      | zero => trivial
      | succ n =>
          obtain ⟨mid, hfound, hnodes⟩ := Checks.bind_eq_ok.mp h
          obtain ⟨i, hi, hle⟩ := declares_iff.mp (hlevels doc (Room.mem_walk_succ.mpr (.inl rfl)))
          rw [migrate_found_eq hi (of_decide_eq_true hle)] at hfound
          refine ⟨i, mid, hi, hfound, nodes_migrated (fun sub hsub sub' hsub' => ?_) hnodes⟩
          rw [← migrate_found_eq hi (of_decide_eq_true hle)] at hfound
          rw [subgraph_dicts_congr (lookup_nodes_found hfound)] at hsub
          exact ih (fun s hs => hlevels s (Room.mem_walk_succ.mpr (.inr ⟨sub, hsub, hs⟩))) hsub' n

/-! ## The walk -/

/-- A nested graph and what its migration returned. -/
def MigratesTo (sub sub' : Members) : Prop := ∃ room, migrate_graph_level room sub = .ok sub'

theorem subgraph_dict_rel {level : Members → Except MigrateError Members} {node node' : Json}
    (h : migrate_node level node = .ok node') :
    Option.Rel (fun sub sub' => level sub = .ok sub') (subgraph_dict node)
      (subgraph_dict node') := by
  cases node with
  | obj members =>
      rw [migrate_node] at h
      split at h
      next sub hlookup =>
        obtain ⟨sub', hlevel, rfl⟩ := Checks.map_eq_ok.mp h
        simp only [subgraph_dict, Json.get?, hlookup, lookup_setL, if_pos]
        exact .some hlevel
      next hno =>
        obtain rfl := Except.ok.inj h
        rw [subgraph_dict]
        split
        next sub hlookup => exact absurd hlookup (hno sub)
        next => exact .none
  | _ =>
      obtain rfl := Except.ok.inj h
      exact .none

/-- The nested graphs of a migrated level are the nested graphs of the level, migrated. -/
theorem subgraph_dicts_migrated {room : Nat} {doc doc' : Members}
    (h : migrate_graph_level (room + 1) doc = .ok doc') :
    List.Forall₂ (fun sub sub' => migrate_graph_level room sub = .ok sub') (subgraph_dicts doc)
      (subgraph_dicts doc') := by
  obtain ⟨mid, hfound, hnodes⟩ := Checks.bind_eq_ok.mp h
  rw [← subgraph_dicts_congr (lookup_nodes_found hfound)]
  rw [migrate_nodes] at hnodes
  split at hnodes
  next nodes hlookup =>
    obtain ⟨nodes', hmap, rfl⟩ := Checks.map_eq_ok.mp hnodes
    simp only [subgraph_dicts, hlookup, lookup_setL, if_pos]
    refine List.rel_filterMap (fun m m' hm => ?_) (Checks.mapM_eq_ok.mp hmap)
    obtain ⟨node', hnode, rfl⟩ := Checks.map_eq_ok.mp hm
    exact subgraph_dict_rel hnode
  next hno =>
    cases hnodes
    rw [subgraph_dicts]
    split
    next nodes hlookup => exact absurd hlookup (hno nodes)
    next => exact .nil

/-- A walk over a migrated document meets the migrated graphs, in the order in which the walk
over the document meets the graphs. -/
theorem iter_subgraph_dicts_migrated {walk room : Nat} {doc doc' : Members}
    (h : migrate_graph_level room doc = .ok doc') :
    List.Forall₂ (Option.Rel MigratesTo) (iter_subgraph_dicts walk doc)
      (iter_subgraph_dicts walk doc') := by
  induction walk generalizing room doc doc' with
  | zero => exact .cons .none .nil
  | succ walk ih =>
      cases room with
      | zero => cases h
      | succ room =>
          exact List.rel_flatMap (subgraph_dicts_migrated h) fun sub sub' hsub =>
            .cons (.some ⟨room, hsub⟩) (ih hsub)

theorem levels_migrated {walk room : Nat} {doc doc' : Members}
    (h : migrate_graph_level room doc = .ok doc') :
    List.Forall₂ (Option.Rel MigratesTo) (levels walk doc) (levels walk doc') := by
  induction walk generalizing room doc doc' with
  | zero => exact .cons .none .nil
  | succ walk ih =>
      cases room with
      | zero => cases h
      | succ room =>
          exact .cons (.some ⟨room + 1, h⟩)
            (List.rel_flatMap (subgraph_dicts_migrated h) fun sub sub' hsub => ih hsub)

theorem none_mem_of_rel {l l' : List (Option Members)}
    (h : List.Forall₂ (Option.Rel MigratesTo) l l') (hnone : none ∈ l') : none ∈ l := by
  induction h with
  | nil => exact hnone
  | cons hrel _ ih =>
      rcases List.mem_cons.mp hnone with heq | hnone
      · cases hrel with
        | none => exact List.mem_cons_self
        | some _ => cases heq
      · exact List.mem_cons_of_mem _ (ih hnone)

/-! ## Rooms -/

theorem sizeOf_lookup {doc : Members} {key : String} {v : Json} (h : doc.lookup key = some v) :
    sizeOf v < sizeOf doc := by
  induction doc with
  | nil => cases h
  | cons m rest ih =>
      obtain ⟨k, w⟩ := m
      rw [List.lookup_cons] at h
      cases hk : key == k with
      | true =>
          rw [hk] at h
          cases h
          simp only [List.cons.sizeOf_spec, Prod.mk.sizeOf_spec]
          omega
      | false =>
          rw [hk] at h
          have := ih h
          simp only [List.cons.sizeOf_spec]
          omega

theorem sizeOf_subgraph_dict {node : Json} {sub : Members} (h : subgraph_dict node = some sub) :
    sizeOf sub < sizeOf node := by
  cases node with
  | obj members =>
      simp only [subgraph_dict, Json.get?] at h
      split at h
      next sub' hlookup =>
        cases h
        have := sizeOf_lookup hlookup
        simp only [Json.obj.sizeOf_spec] at this ⊢
        omega
      next => cases h
  | _ => cases h

theorem sizeOf_subgraph_dicts {doc sub : Members} (h : sub ∈ subgraph_dicts doc) :
    sizeOf sub < sizeOf doc := by
  rw [subgraph_dicts] at h
  split at h
  next nodes hlookup =>
    obtain ⟨m, hm, hsub⟩ := List.mem_filterMap.mp h
    have hnodes := sizeOf_lookup hlookup
    have hnode := List.sizeOf_lt_of_mem hm
    have hsize := sizeOf_subgraph_dict hsub
    obtain ⟨k, node⟩ := m
    simp only [Json.obj.sizeOf_spec, Prod.mk.sizeOf_spec] at hnodes hnode hsize
    omega
  next => cases h

/-- However deep the graphs of a document nest, some stack has room for them. -/
theorem exists_room (doc : Members) : ∃ limit, ∀ room, limit ≤ room → none ∉ levels room doc := by
  refine ⟨sizeOf doc + 1, fun room => ?_⟩
  induction room generalizing doc with
  | zero => exact fun h => by omega
  | succ room ih =>
      intro hle hnone
      rcases Room.mem_walk_succ.mp hnone with heq | ⟨sub, hsub, hnone⟩
      · cases heq
      · have := sizeOf_subgraph_dicts hsub
        exact ih sub (by omega) hnone

/-! ## Documents -/

/-- What comes of a document. -/
structure Migration (room : Nat) (doc doc' : Members) : Prop where
  stamped : ∀ n, CurrentDoc n doc'
  stepwise : ∀ n, Migrated n doc doc'
  settled : migrate_graph_level room doc' = .ok doc'
  visited : ∀ walk, List.Forall₂ (Option.Rel MigratesTo) (iter_subgraph_dicts walk doc)
    (iter_subgraph_dicts walk doc')

theorem migration_of_ok {room : Nat} {doc doc' : Members}
    (hversions : ∀ sub, some sub ∈ levels room doc → not_newer sub = true)
    (hroom : none ∉ levels room doc) (h : migrate_graph_level room doc = .ok doc') :
    Migration room doc doc' where
  stamped := current_of_migrated hversions h
  stepwise := migrated_of_ok hversions h
  settled := migrate_eq_self (current_of_migrated hversions h) fun hnone =>
    hroom (none_mem_of_rel (levels_migrated h) hnone)
  visited _ := iter_subgraph_dicts_migrated h

/-- With room for every level, only a missing step is an error. -/
theorem migrate_error_of_room {room : Nat} {doc : Members} {err : MigrateError}
    (hversions : ∀ sub, some sub ∈ levels room doc → not_newer sub = true)
    (hroom : none ∉ levels room doc) (h : migrate_graph_level room doc = .error err) :
    err = .MigrationError := by
  rcases migrate_error hversions h with rfl | rfl
  · rfl
  · exact absurd ((List.takeWhile_prefix _).subset ((migrate_recursion_iff hversions).mp h)) hroom

/-- The dictionaries of the input stay as they were, whatever comes of the run. -/
theorem migrate_run {room : Nat} {doc : Members} {h : Cells.Heap Stored.Cell} {g : Nat}
    (hdoc : Stored.Shows h {a | a < h.length} (.ref g) (.obj doc)) :
    Cells.Extends h (Stored.migrate_graph_level room g h).2 ∧
      Stored.Agrees h (Stored.migrate_graph_level room g h) (migrate_graph_level room doc)
        fun h' b doc' => Stored.Shows h' {a | a < h'.length} (.ref b) (.obj doc') := by
  have hrun := Stored.migrate_level_runs room (fun _ hb => hb) hdoc
  cases hx : migrate_graph_level room doc with
  | error err =>
      rw [hx] at hrun
      obtain ⟨h', hrun, hext⟩ := hrun
      exact ⟨hrun ▸ hext, h', hrun, hext⟩
  | ok doc' =>
      rw [hx] at hrun
      obtain ⟨b, h', hrun, hext, hb⟩ := hrun
      refine ⟨hrun ▸ hext, b, h', hrun, hb.frame (fun c hc => ?_) fun _ _ _ => id⟩
      exact Stored.reached_lt (fun _ hd => hd) hext hc

theorem migrate_document_law (doc : Members)
    (hversions : ∀ room sub, some sub ∈ levels room doc → not_newer sub = true) :
    (∃ limit, ∀ room, limit ≤ room → none ∉ levels room doc) ∧
    ∀ room, none ∉ levels room doc →
      (migrate_graph_level room doc = .error .MigrationError ∨
        ∃ doc', migrate_graph_level room doc = .ok doc' ∧ Migration room doc doc') ∧
      ∀ (h : Cells.Heap Stored.Cell) (g : Nat),
        Stored.Shows h {a | a < h.length} (.ref g) (.obj doc) →
          Cells.Extends h (Stored.migrate_graph_level room g h).2 ∧
          Stored.Agrees h (Stored.migrate_graph_level room g h) (migrate_graph_level room doc)
            fun h' b doc' => Stored.Shows h' {a | a < h'.length} (.ref b) (.obj doc') := by
  refine ⟨exists_room doc, fun room hroom => ⟨?_, fun h g => migrate_run⟩⟩
  cases hx : migrate_graph_level room doc with
  | error err => exact .inl (congrArg _ (migrate_error_of_room (hversions room) hroom hx))
  | ok doc' => exact .inr ⟨doc', rfl, migration_of_ok (hversions room) hroom hx⟩

def inner_old : Members := [("nodes", .obj [])]

/-- A graph of schema v0 with an inner graph from before there were versions. -/
def nested_old : Members :=
  [("schema_version", .int 0), ("mode", .str "flow"),
   ("nodes", .obj [("a", .obj [("subgraph", .obj inner_old)])])]

theorem migrate_document_law_nested :
    (∃ limit, ∀ room, limit ≤ room → none ∉ levels room nested_old) ∧
      ∃ doc', migrate_graph_level 2 nested_old = .ok doc' ∧ Migration 2 nested_old doc' := by
  have hversions : ∀ room sub, some sub ∈ levels room nested_old → not_newer sub = true := by
    intro room sub hsub
    have hmem : sub ∈ [nested_old, inner_old] := by
      rcases room with _ | _ | room
      · have : some sub ∈ [(none : Option Members)] := hsub
        simp at this
      · have : some sub ∈ [some nested_old, none] := hsub
        simp_all
      · have : some sub ∈ [some nested_old, some inner_old] := hsub
        simpa using this
    have hall : ∀ sub ∈ [nested_old, inner_old], not_newer sub = true := by
      simp only [List.forall_mem_cons]
      exact ⟨rfl, rfl, fun _ hnil => absurd hnil List.not_mem_nil⟩
    exact hall sub hmem
  have hlaw := migrate_document_law nested_old hversions
  have hroom : none ∉ levels 2 nested_old := fun h => by
    have : none ∈ [some nested_old, some inner_old] := h
    simp at this
  refine ⟨hlaw.1, ?_⟩
  rcases (hlaw.2 2 hroom).1 with herr | hok
  · cases herr
  · exact hok

end EmergentFlow.Wire
