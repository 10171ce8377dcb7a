import EmergentFlow.Lib.Room
import EmergentFlow.Ir.Migrate

/-!
# Ir — MigrateLaws

What migrating a document does to it (`emergentflow/ir/migrate.py`): it raises
what a walk over the levels of nested graphs would, every level of the result
carries the current version, and a document that is current comes back as it
was.
-/

namespace EmergentFlow.Wire

/-! ## Members -/

theorem lookup_setL (doc : Members) (key key' : String) (v : Json) :
    (Dict.setL key v doc).lookup key' = if key = key' then some v else doc.lookup key' := by
  induction doc with
  | nil =>
      by_cases h : key = key'
      · simp [Dict.setL, h]
      · simp [Dict.setL, h, Ne.symm h]
  | cons m rest ih =>
      obtain ⟨k, w⟩ := m
      by_cases hk : k = key
      · by_cases h : key = key'
        · simp [Dict.setL, hk, h]
        · simp [Dict.setL, hk, h, List.lookup_cons, beq_false_of_ne (Ne.symm h)]
      · by_cases hk' : key' = k
        · simp [Dict.setL, hk, hk', Ne.symm hk]
        · simp [Dict.setL, hk, List.lookup_cons, beq_false_of_ne hk', ih]

theorem lookup_eraseL (doc : Members) {key key' : String} (h : key' ≠ key) :
    (Dict.eraseL key doc).lookup key' = doc.lookup key' := by
  induction doc with
  | nil => rfl
  | cons m rest ih =>
      obtain ⟨k, w⟩ := m
      simp only [Dict.eraseL, ne_eq, decide_not] at ih ⊢
      by_cases hk : k = key
      · simp [hk, List.lookup_cons, beq_false_of_ne h, ih]
      · cases hk' : key' == k <;> simp [hk, List.lookup_cons, hk', ih]

/-- Setting a member to what it is changes nothing. -/
theorem setL_lookup {doc : Members} {key : String} {v : Json} (h : doc.lookup key = some v) :
    Dict.setL key v doc = doc := by
  induction doc with
  | nil => cases h
  | cons m rest ih =>
      obtain ⟨k, w⟩ := m
      by_cases hk : k = key
      · rw [hk, List.lookup_cons_self, Option.some.injEq] at h
        simp [Dict.setL, hk, h]
      · rw [List.lookup_cons, beq_false_of_ne (Ne.symm hk)] at h
        simp [Dict.setL, hk, ih h]

/-! ## One level -/

theorem lookup_nodes_step {v : Int} {step : Members → Members} (h : migrations v = some step)
    (doc : Members) : (step doc).lookup "nodes" = doc.lookup "nodes" := by
  rw [migrations] at h
  split at h
  · cases h
    rw [migrate_v0_to_v1]
    split
    · rw [lookup_setL, if_neg (by decide), lookup_eraseL doc (by decide)]
    · rfl
  · split at h
    · cases h
      rw [migrate_v1_to_v2]
      split
      · rfl
      · rw [lookup_setL, if_neg (by decide)]
    · cases h

theorem lookup_nodes_steps {n : Nat} {v : Int} {doc doc' : Members}
    (h : migrate_steps n v doc = .ok doc') : doc'.lookup "nodes" = doc.lookup "nodes" := by
  induction n generalizing v doc with
  | zero =>
      cases h
      rfl
  | succ n ih =>
      rw [migrate_steps] at h
      split at h
      · cases h
      · rename_i step hstep
        rw [ih h, lookup_setL, if_neg (by decide), lookup_nodes_step hstep]

/-- Migrating a level leaves its nodes to `migrate_nodes`. -/
theorem lookup_nodes_found {doc doc' : Members} {found : Json}
    (h : migrate_found doc found = .ok doc') : doc'.lookup "nodes" = doc.lookup "nodes" := by
  have hint : ∀ i, migrate_to_current doc i = .ok doc' →
      doc'.lookup "nodes" = doc.lookup "nodes" := by
    intro i hi
    rw [migrate_to_current] at hi
    split at hi
    · cases hi
      rfl
    · split at hi
      · cases hi
      · exact lookup_nodes_steps hi
  cases found with
  | int i => exact hint i h
  | bool b => exact hint _ h
  | float x =>
      cases x with
      | finite x =>
          rw [migrate_found] at h
          split at h
          · cases h
            rfl
          · cases h
      | infinity negative => cases negative <;> cases h
      | nan => cases h
  | _ => cases h

theorem version_of_steps {n : Nat} {v : Int} {doc doc' : Members} (hn : 0 < n)
    (h : migrate_steps n v doc = .ok doc') :
    doc'.lookup "schema_version" = some (.int (v + n)) := by
  induction n generalizing v doc with
  | zero => omega
  | succ n ih =>
      rw [migrate_steps] at h
      split at h
      · cases h
      · cases n with
        | zero =>
            cases h
            rw [lookup_setL, if_pos rfl]
            simp
        | succ n =>
            rw [ih (by omega) h]
            congr 2
            omega

theorem migrate_steps_eq_error {n : Nat} {v : Int} {doc : Members} {err : MigrateError}
    (h : migrate_steps n v doc = .error err) : err = .MigrationError := by
  induction n generalizing v doc with
  | zero => cases h
  | succ n ih =>
      rw [migrate_steps] at h
      split at h
      · cases h
        rfl
      · exact ih h

/-- From zero on there is a step for every version below the current one. -/
theorem migrate_steps_isOk {n : Nat} {v : Int} {doc : Members}
    (h : v + n = CURRENT_SCHEMA_VERSION) (hn : 0 < n) :
    (∃ doc', migrate_steps n v doc = .ok doc') ↔ 0 ≤ v := by
  simp only [CURRENT_SCHEMA_VERSION] at h
  constructor
  · rintro ⟨doc', hdoc⟩
    obtain ⟨n, rfl⟩ := Nat.exists_eq_add_of_lt hn
    rw [Nat.zero_add, migrate_steps] at hdoc
    split at hdoc
    · cases hdoc
    · rename_i step hstep
      rw [migrations] at hstep
      split at hstep
      · omega
      · split at hstep
        · omega
        · cases hstep
  · intro hv
    have hcases : v = 0 ∧ n = 2 ∨ v = 1 ∧ n = 1 := by omega
    rcases hcases with ⟨rfl, rfl⟩ | ⟨rfl, rfl⟩
    · exact ⟨_, rfl⟩
    · exact ⟨_, rfl⟩

/-- The version a document declares is a whole number with `p`. -/
def declares (p : Int → Bool) (doc : Members) : Bool :=
  match found_version doc with
  | .int i => p i
  | _ => false

theorem declares_iff {p : Int → Bool} {doc : Members} :
    declares p doc = true ↔ ∃ i, found_version doc = .int i ∧ p i = true := by
  rw [declares]
  split
  next i hi => simp [hi]
  next hne =>
    simp only [Bool.false_eq_true, false_iff, not_exists, not_and]
    intro i hi
    exact absurd hi (hne i)

/-- The version is one this build knows or an older one. -/
def not_newer : Members → Bool := declares fun i => decide (i ≤ CURRENT_SCHEMA_VERSION)

/-- There may be a migration from the version. -/
def not_negative : Members → Bool := declares fun i => decide (0 ≤ i)

/-- What migrating one level comes to, its nodes apart. -/
structure LevelMigrates (doc : Members) : Prop where
  ok_iff : (∃ doc', migrate_found doc (found_version doc) = .ok doc') ↔ not_negative doc = true
  error : ∀ err, migrate_found doc (found_version doc) = .error err → err = .MigrationError
  version : ∀ doc', migrate_found doc (found_version doc) = .ok doc' →
    doc'.lookup "schema_version" = some (.int CURRENT_SCHEMA_VERSION)

theorem level_migrates {doc : Members} (h : not_newer doc = true) : LevelMigrates doc := by
  obtain ⟨i, hi, hle⟩ := declares_iff.mp h
  rw [decide_eq_true_eq] at hle
  have hneg : not_negative doc = true ↔ 0 ≤ i := by
    rw [not_negative, declares, hi, decide_eq_true_eq]
  by_cases hcur : i = CURRENT_SCHEMA_VERSION
  · -- a current level stays as it is; an absent version is never the current one
    have hsame : migrate_found doc (found_version doc) = .ok doc := by
      rw [hi, migrate_found, migrate_to_current, if_pos hcur]
    have hversion : doc.lookup "schema_version" = some (.int CURRENT_SCHEMA_VERSION) := by
      rw [found_version] at hi
      cases hlookup : doc.lookup "schema_version" with
      | none =>
          rw [hlookup, hcur] at hi
          exact absurd (Json.int.inj hi) (by decide)
      | some j =>
          rw [hlookup, hcur] at hi
          exact congrArg some hi
    refine ⟨?_, ?_, ?_⟩
    · rw [hneg, hsame, hcur]
      exact ⟨fun _ => by decide, fun _ => ⟨doc, rfl⟩⟩
    · intro err herr
      rw [hsame] at herr
      cases herr
    · intro doc' hdoc
      rw [hsame] at hdoc
      cases hdoc
      exact hversion
  · -- an older level takes one step for each version it is behind
    have hsteps : migrate_found doc (found_version doc)
        = migrate_steps (CURRENT_SCHEMA_VERSION - i).toNat i doc := by
      rw [hi, migrate_found, migrate_to_current, if_neg hcur, if_neg (by omega)]
    have hn : 0 < (CURRENT_SCHEMA_VERSION - i).toNat := by omega
    have hsum : i + (CURRENT_SCHEMA_VERSION - i).toNat = CURRENT_SCHEMA_VERSION := by omega
    refine ⟨?_, ?_, ?_⟩
    · rw [hneg, hsteps]
      exact migrate_steps_isOk hsum hn
    · intro err herr
      exact migrate_steps_eq_error (hsteps ▸ herr)
    · intro doc' hdoc
      rw [version_of_steps hn (hsteps ▸ hdoc), hsum]

/-! ## All levels -/

/-- The levels that the migration comes to. -/
def levels : Nat → Members → List (Option Members) := Room.walk subgraph_dicts

/-- What the migration of one level raises. -/
def check_level : Option Members → Except MigrateError Unit
  | none => .error .RecursionError
  | some doc => Checks.void (migrate_found doc (found_version doc))

theorem void_migrate_node (level : Members → Except MigrateError Members) (node : Json) :
    Checks.void (migrate_node level node)
      = (subgraph_dict node).elim (.ok ()) fun sub => Checks.void (level sub) := by
  cases node with
  | obj members =>
      simp only [migrate_node, subgraph_dict, Json.get?]
      split
      next sub hsub => exact Checks.void_map
      next => rfl
  | _ => rfl

theorem void_migrate_nodes (level : Members → Except MigrateError Members) (doc : Members) :
    Checks.void (migrate_nodes level doc)
      = (subgraph_dicts doc).forM fun sub => Checks.void (level sub) := by
  rw [migrate_nodes, subgraph_dicts]
  split
  · rw [Checks.void_map, Checks.void_mapM, Checks.forM_filterMap]
    simp only [Checks.void_map, void_migrate_node]
  · rfl

theorem lookup_of_migrate_nodes {level : Members → Except MigrateError Members}
    {doc doc' : Members} (h : migrate_nodes level doc = .ok doc') {key : String}
    (hkey : "nodes" ≠ key) : doc'.lookup key = doc.lookup key := by
  rw [migrate_nodes] at h
  split at h
  · obtain ⟨nodes, -, rfl⟩ := Checks.map_eq_ok.mp h
    rw [lookup_setL, if_neg hkey]
  · cases h
    rfl

theorem subgraph_dicts_congr {doc doc' : Members} (h : doc'.lookup "nodes" = doc.lookup "nodes") :
    subgraph_dicts doc' = subgraph_dicts doc := by
  rw [subgraph_dicts, subgraph_dicts, h]

/-- The migration raises what a walk over the levels does. -/
theorem void_migrate_graph_level (room : Nat) (doc : Members) :
    Checks.void (migrate_graph_level room doc) = (levels room doc).forM check_level := by
  induction room generalizing doc with
  | zero => rfl
  | succ room ih =>
      rw [migrate_graph_level, Checks.void_bind
        (y := (subgraph_dicts doc).forM fun sub => (levels room sub).forM check_level)]
      · rw [← Checks.forM_flatMap]
        rfl
      · intro doc' hdoc
        rw [void_migrate_nodes, subgraph_dicts_congr (lookup_nodes_found hdoc)]
        simp only [ih]

section Accepted

variable {room : Nat} {doc doc' : Members}
  (hlevels : ∀ sub, some sub ∈ levels room doc → not_newer sub = true)

include hlevels in
/-- A document of known versions overflows the stack exactly when a level
comes too deep before a negative version does. -/
theorem migrate_recursion_iff : migrate_graph_level room doc = .error .RecursionError ↔
    Room.Overflows not_negative (levels room doc) := by
  rw [← Checks.void_eq_error, void_migrate_graph_level]
  have hend : check_level none = .error .RecursionError := rfl
  refine Room.forM_eq_error_iff hend ?_ ?_
  · intro sub hsub herr
    have := (level_migrates (hlevels sub hsub)).error _ (Checks.void_eq_error.mp herr)
    cases this
  · intro sub hsub
    rw [check_level, Checks.void_eq_ok]
    exact (level_migrates (hlevels sub hsub)).ok_iff

include hlevels in
/-- Whatever else is raised is a migration error. -/
theorem migrate_error {err : MigrateError} (h : migrate_graph_level room doc = .error err) :
    err = .MigrationError ∨ err = .RecursionError := by
  rw [← Checks.void_eq_error, void_migrate_graph_level] at h
  obtain ⟨o, ho, herr⟩ := Checks.forM_eq_error h
  cases o with
  | none => exact .inr (Except.error.inj herr).symm
  | some sub =>
      exact .inl ((level_migrates (hlevels sub ho)).error _ (Checks.void_eq_error.mp herr))

end Accepted

/-- Down to `n` levels of nested graphs the document is at the current
version. -/
def CurrentDoc : Nat → Members → Prop
  | 0, _ => True
  | n + 1, doc =>
      doc.lookup "schema_version" = some (.int CURRENT_SCHEMA_VERSION) ∧
        ∀ sub ∈ subgraph_dicts doc, CurrentDoc n sub

theorem CurrentDoc.not_newer {doc : Members} (h : CurrentDoc 1 doc) : not_newer doc = true := by
  simp [Wire.not_newer, declares, found_version, h.1]

/-! ## What comes of a document -/

theorem subgraph_dict_migrated {level : Members → Except MigrateError Members}
    {node node' : Json} {sub' : Members} (h : migrate_node level node = .ok node')
    (hsub : subgraph_dict node' = some sub') :
    ∃ sub, subgraph_dict node = some sub ∧ level sub = .ok sub' := by
  cases node with
  | obj members =>
      rw [migrate_node] at h
      split at h
      next sub hlookup =>
        obtain ⟨migrated, hlevel, rfl⟩ := Checks.map_eq_ok.mp h
        simp only [subgraph_dict, Json.get?, lookup_setL, if_pos, Option.some.injEq] at hsub
        exact ⟨sub, by simp only [subgraph_dict, Json.get?, hlookup], hsub ▸ hlevel⟩
      next hno =>
        cases h
        rw [subgraph_dict] at hsub
        split at hsub
        next sub hlookup => exact absurd hlookup (hno sub)
        next => cases hsub
  | _ =>
      cases h
      cases hsub

/-- An inner graph of the migrated nodes is the migrated inner graph of one. -/
theorem mem_subgraph_dicts_migrated {level : Members → Except MigrateError Members}
    {doc doc' sub' : Members} (h : migrate_nodes level doc = .ok doc')
    (hsub : sub' ∈ subgraph_dicts doc') : ∃ sub ∈ subgraph_dicts doc, level sub = .ok sub' := by
  rw [migrate_nodes] at h
  split at h
  next nodes hnodes =>
    obtain ⟨nodes', hmap, rfl⟩ := Checks.map_eq_ok.mp h
    simp only [subgraph_dicts, lookup_setL, if_pos, List.mem_filterMap] at hsub
    obtain ⟨m', hm', hsub⟩ := hsub
    obtain ⟨m, hm, hm'⟩ := Checks.mem_right_of_mapM hmap hm'
    obtain ⟨node', hnode, rfl⟩ := Checks.map_eq_ok.mp hm'
    obtain ⟨sub, hdict, hlevel⟩ := subgraph_dict_migrated hnode hsub
    refine ⟨sub, ?_, hlevel⟩
    rw [subgraph_dicts, hnodes]
    exact List.mem_filterMap.mpr ⟨m, hm, hdict⟩
  next hno =>
    cases h
    rw [subgraph_dicts] at hsub
    split at hsub
    next nodes hnodes => exact absurd hnodes (hno nodes)
    next => cases hsub

/-- A migrated document is current on every level. -/
theorem current_of_migrated {room : Nat} {doc doc' : Members}
    (hlevels : ∀ sub, some sub ∈ levels room doc → not_newer sub = true)
    (h : migrate_graph_level room doc = .ok doc') (n : Nat) : CurrentDoc n doc' := by
  induction room generalizing doc doc' n with
  | zero => cases h
  | succ room ih =>
      cases n with
      | zero => trivial
      | succ n =>
          obtain ⟨found, hfound, hnodes⟩ := Checks.bind_eq_ok.mp h
          have hdoc := hlevels doc (Room.mem_walk_succ.mpr (.inl rfl))
          refine ⟨?_, fun sub' hsub' => ?_⟩
          · rw [lookup_of_migrate_nodes hnodes (by decide)]
            exact (level_migrates hdoc).version found hfound
          · obtain ⟨sub, hsub, hlevel⟩ := mem_subgraph_dicts_migrated hnodes hsub'
            rw [subgraph_dicts_congr (lookup_nodes_found hfound)] at hsub
            refine ih (fun s hs => hlevels s ?_) hlevel n
            exact Room.mem_walk_succ.mpr (.inr ⟨sub, hsub, hs⟩)

theorem migrate_node_eq_self {level : Members → Except MigrateError Members} {node : Json}
    (h : ∀ sub, subgraph_dict node = some sub → level sub = .ok sub) :
    migrate_node level node = .ok node := by
  cases node with
  | obj members =>
      rw [migrate_node]
      split
      next sub hlookup =>
        rw [h sub (by simp only [subgraph_dict, Json.get?, hlookup])]
        exact congrArg (fun m => Except.ok (Json.obj m)) (setL_lookup hlookup)
      next => rfl
  | _ => rfl

theorem migrate_nodes_eq_self {level : Members → Except MigrateError Members} {doc : Members}
    (h : ∀ sub ∈ subgraph_dicts doc, level sub = .ok sub) :
    migrate_nodes level doc = .ok doc := by
  rw [migrate_nodes]
  split
  next nodes hnodes =>
    have hmap : nodes.mapM (fun m => (migrate_node level m.2).map (m.1, ·)) = .ok nodes := by
      rw [Checks.mapM_eq_ok, List.forall₂_same]
      intro m hm
      rw [migrate_node_eq_self fun sub hsub => h sub ?_]
      · rfl
      · rw [subgraph_dicts, hnodes]
        exact List.mem_filterMap.mpr ⟨m, hm, hsub⟩
    rw [hmap]
    exact congrArg Except.ok (setL_lookup hnodes)
  next => rfl

/-- A document that is current on every level comes back as it was, if the
stack has room for it. -/
theorem migrate_eq_self {room : Nat} {doc : Members} (h : ∀ n, CurrentDoc n doc)
    (hroom : none ∉ levels room doc) : migrate_graph_level room doc = .ok doc := by
  induction room generalizing doc with
  | zero => exact absurd (List.mem_singleton_self _) hroom
  | succ room ih =>
      have hfound : migrate_found doc (found_version doc) = .ok doc := by
        rw [found_version, (h 1).1]
        rfl
      rw [migrate_graph_level, hfound]
      refine migrate_nodes_eq_self fun sub hsub => ih (fun n => (h (n + 1)).2 sub hsub) ?_
      exact fun hnone => hroom (Room.mem_walk_succ.mpr (.inr ⟨sub, hsub, hnone⟩))

end EmergentFlow.Wire
