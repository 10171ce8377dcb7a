import EmergentFlow.Lib.Runs
import EmergentFlow.Lib.StableSort
import EmergentFlow.Server.Runs

/-!
# Server — RunHistory

What the store of runs keeps over every history of saves and deletes. A run
is lost without being deleted or old enough in two ways: a save that gets an
id which is taken writes into the directory of the run that has it, and
removes that directory if it fails; and `_evict` goes by the times of the
directories, which the new run need not be the last in.
-/

namespace EmergentFlow

namespace RunStore

open Transaction

/-! ## Reading a run -/

/-- What the three reading methods return for a run. -/
def Readable (s : RunStore) (id : RunId) (files : RunFile → Json) : Prop :=
  (get id.1 s).1 = .ok (files .run) ∧ (get_graph id.1 s).1 = .ok (files .graph) ∧
    (get_payloads id.1 s).1 = .ok (files .payloads)

theorem run_dir_of_valid (id : RunId) (s : RunStore) : run_dir id.1 s = (.ok id, s) := by
  rw [run_dir, dif_pos id.2]
  rfl

theorem run_dir_eq_ok {run_id : String} {id : RunId} {s s' : RunStore} :
    run_dir run_id s = (.ok id, s') ↔ id.1 = run_id ∧ s' = s := by
  constructor
  · intro h
    unfold run_dir at h
    split at h
    · cases h
      exact ⟨rfl, rfl⟩
    · cases h
  · rintro ⟨rfl, rfl⟩
    exact run_dir_of_valid id s'

theorem read_file_eq_ok {s : RunStore} {file : RunFile} {id : RunId} {data : Json} :
    (read_file file id.1 s).1 = .ok data ↔
      ∃ dir, s.runs.get? id = some dir ∧ dir.files file = some data := by
  rw [read_file, bind_of_ok (run_dir_of_valid id s), bind_of_ok (read_apply s)]
  rw [← Option.bind_eq_some_iff]
  cases (s.runs.get? id).bind (·.files file) with
  | none => exact ⟨nofun, nofun⟩
  | some found =>
      simp only [pure_apply, Except.ok.injEq, Option.some.injEq]

theorem readable_iff {s : RunStore} {id : RunId} {files : RunFile → Json} :
    s.Readable id files ↔
      ∃ dir, s.runs.get? id = some dir ∧ ∀ file, dir.files file = some (files file) := by
  simp only [Readable, get, get_graph, get_payloads, read_file_eq_ok]
  constructor
  · rintro ⟨⟨dir, hdir, hrun⟩, ⟨_, hdir', hgraph⟩, ⟨_, hdir'', hpayloads⟩⟩
    cases hdir.symm.trans hdir'
    cases hdir.symm.trans hdir''
    refine ⟨dir, hdir, fun file => ?_⟩
    cases file with
    | run => exact hrun
    | graph => exact hgraph
    | payloads => exact hpayloads
  · rintro ⟨dir, hdir, hfiles⟩
    exact ⟨⟨dir, hdir, hfiles _⟩, ⟨dir, hdir, hfiles _⟩, ⟨dir, hdir, hfiles _⟩⟩

/-! ## Eviction -/

section Eviction

variable {env : RunEnv} {s : RunStore} {a b : RunId × RunDir}

theorem dirs_perm (hstat : ∀ e ∈ s.runs.entries, env.stat_fails e.1 = false) :
    (dirs env s).Perm s.runs.entries := by
  have hlisted : (iterdir env s).Perm s.runs.entries := List.mergeSort_perm _ _
  have hall : (iterdir env s).filter (fun child => !env.stat_fails child.1) = iterdir env s := by
    rw [List.filter_eq_self]
    intro e he
    rw [hstat e (hlisted.mem_iff.mp he)]
    rfl
  rw [dirs, hall]
  exact (List.mergeSort_perm _ _).trans hlisted

theorem length_dirs_le (env : RunEnv) (s : RunStore) : (dirs env s).length ≤ s.runs.size := by
  rw [dirs, List.length_mergeSort]
  refine (List.length_filter_le _ _).trans ?_
  rw [iterdir, List.length_mergeSort]
  rfl

/-- Two directories in the order of eviction: the first is older, or of one
age and listed first, or also of one rank and saved first. -/
theorem dirs_pair (h : [a, b].Sublist (dirs env s)) :
    a.2.mtime ≤ b.2.mtime ∧ (b.2.mtime ≤ a.2.mtime →
      env.rank a.1 ≤ env.rank b.1 ∧
        (env.rank b.1 ≤ env.rank a.1 → [a, b].Sublist s.runs.entries)) := by
  have hentries : s.runs.entries.Nodup := List.Nodup.of_map _ s.runs.nodup
  have hlisted : (iterdir env s).Nodup := (List.mergeSort_perm _ _).nodup_iff.mpr hentries
  have htime := StableSort.pair_of_mergeSort (fun x y z hxy hyz => by
    simp only [decide_eq_true_eq] at hxy hyz ⊢
    omega) (fun x y => by
    simp only [Bool.or_eq_true, decide_eq_true_eq]
    omega) (hlisted.filter _) h
  simp only [decide_eq_true_eq] at htime
  refine ⟨htime.1, fun hle => ?_⟩
  have hrank := StableSort.pair_of_mergeSort (fun x y z hxy hyz => by
    simp only [decide_eq_true_eq] at hxy hyz ⊢
    omega) (fun x y => by
    simp only [Bool.or_eq_true, decide_eq_true_eq]
    omega) hentries ((htime.2 hle).trans List.filter_sublist)
  simpa only [decide_eq_true_eq] using hrank

/-- The store without some of its runs. -/
def without (old : List (RunId × RunDir)) (s : RunStore) : RunStore :=
  { s with runs := s.runs.filter (fun id _ => id ∉ old.map Prod.fst) }

/-- The directories that are evicted. -/
def oldest (env : RunEnv) (s : RunStore) : List (RunId × RunDir) :=
  (dirs env s).take ((dirs env s).length - s.keep.toNat)

theorem evict_loop_apply {k : Nat} {dirs : List (RunId × RunDir)}
    (hgone : ∀ e ∈ dirs.take (dirs.length - k), env.remains e.1 = none) :
    evict_loop env k dirs s = (.ok (), s.without (dirs.take (dirs.length - k))) := by
  induction dirs generalizing s with
  | nil =>
      have hkeep : (0 : Int) ≤ k := Int.natCast_nonneg k
      simp [evict_loop, check, hkeep, without, Dict.filter]
  | cons e dirs ih =>
      by_cases hmore : k < dirs.length + 1
      · have htake : (e :: dirs).take ((e :: dirs).length - k) =
            e :: dirs.take (dirs.length - k) := by
          rw [List.length_cons, Nat.succ_sub (Nat.le_of_lt_succ hmore), List.take_succ_cons]
        rw [htake] at hgone ⊢
        have hmore' : (k : Int) < dirs.length + 1 := by omega
        have herase : rmtree env e.1 s = { s with runs := s.runs.erase e.1 } := by
          rw [rmtree, hgone e (List.mem_cons_self ..)]
        rw [evict_loop, if_pos hmore', write_bind_apply, herase,
          ih fun e' he' => hgone e' (List.mem_cons_of_mem _ he')]
        simp only [without]
        congr 2
        apply Dict.ext_entries
        simp only [Dict.filter, Dict.erase, Dict.eraseL, List.filter_filter]
        congr 1
        funext x
        simp only [List.map_cons, List.mem_cons, not_or, Bool.decide_and, Bool.and_comm]
      · have htake : (e :: dirs).length - k = 0 := by
          rw [List.length_cons]
          omega
        have hmore' : ¬ (k : Int) < dirs.length + 1 := by omega
        rw [evict_loop, if_neg hmore', htake]
        simp [without, Dict.filter]

theorem evict_apply (hfault : env.fault ≠ some .iterdir) (hkeep : 0 ≤ s.keep)
    (hgone : ∀ e ∈ oldest env s, env.remains e.1 = none) :
    evict env s = (.ok (), s.without (oldest env s)) := by
  have hcheck : (check (env.fault ≠ some .iterdir) .os_error : Transaction RunStore
      RunError Unit) s = (.ok (), s) := by
    rw [check_eq_ok]
    exact ⟨decide_eq_true hfault, rfl⟩
  rw [evict, bind_of_ok hcheck, bind_of_ok (read_apply s)]
  have h := evict_loop_apply (s := s) hgone
  rwa [Int.toNat_of_nonneg hkeep] at h

end Eviction

/-! ## Eviction after a new run -/

section NewRun

variable {env : RunEnv} {s : RunStore} {id : RunId} {dir : RunDir}

/-- The store with the directory of a new run. -/
def put (id : RunId) (dir : RunDir) (s : RunStore) : RunStore :=
  { s with runs := s.runs.set id dir }

/-- Whether a stored run is evicted after a new one: it is younger by the
time of its directory, or of one time and listed later. -/
def newer (env : RunEnv) (id : RunId) (e : RunId × RunDir) : Bool :=
  env.clock < e.2.mtime || (env.clock = e.2.mtime && env.rank id < env.rank e.1)

/-- What lets a save make room for its run and for no other. -/
structure Room (s : RunStore) (env : RunEnv) (id : RunId) : Prop where
  few : (s.runs.entries.countP (newer env id) : Int) < s.keep
  stat : s.keep ≤ s.runs.size →
    env.stat_fails id = false ∧ ∀ k ∈ s.runs.keys, env.stat_fails k = false
  removed : s.keep ≤ s.runs.size → ∀ k ∈ s.runs.keys, env.remains k = none

theorem entries_put (hnew : s.runs.get? id = none) :
    (s.put id dir).runs.entries = s.runs.entries ++ [(id, dir)] :=
  Dict.entries_set_of_notMem _ _ ((Dict.get?_eq_none_iff _).mp hnew)

theorem size_put (dir : RunDir) (hnew : s.runs.get? id = none) :
    (s.put id dir).runs.size = s.runs.size + 1 := by
  rw [Dict.size, entries_put hnew, List.length_append]
  rfl

theorem stat_put (dir : RunDir) (hnew : s.runs.get? id = none) (hroom : Room s env id)
    (hfull : s.keep ≤ s.runs.size) :
    ∀ e ∈ (s.put id dir).runs.entries, env.stat_fails e.1 = false := by
  intro e he
  rw [entries_put hnew, List.mem_append, List.mem_singleton] at he
  rcases he with he | rfl
  · exact (hroom.stat hfull).2 _ (List.mem_map_of_mem he)
  · exact (hroom.stat hfull).1

theorem oldest_eq_nil (hnew : s.runs.get? id = none) (hfull : ¬ s.keep ≤ s.runs.size) :
    oldest env (s.put id dir) = [] := by
  have hle := length_dirs_le env (s.put id dir)
  have hkeep : (s.put id dir).keep = s.keep := rfl
  rw [size_put dir hnew] at hle
  rw [oldest, hkeep, List.take_eq_nil_iff]
  left
  omega

/-- A new run is not evicted while fewer than `keep` are newer. -/
theorem new_notMem_oldest (hdir : dir.mtime = env.clock) (hnew : s.runs.get? id = none)
    (hroom : Room s env id) : ∀ e ∈ oldest env (s.put id dir), e ∈ s.runs.entries := by
  by_cases hfull : s.keep ≤ s.runs.size
  · have hperm := dirs_perm (stat_put dir hnew hroom hfull)
    have hnot : (id, dir) ∉ oldest env (s.put id dir) := by
      apply StableSort.notMem_take_of_few (p := newer env id)
      · intro b hpair
        obtain ⟨htime, hrank⟩ := dirs_pair hpair
        simp only [hdir] at htime hrank
        rw [newer, Bool.or_eq_true, Bool.and_eq_true]
        simp only [decide_eq_true_eq]
        -- of equal ones the sort keeps the order they were saved in, where the new one is last
        by_contra hnewer
        obtain ⟨hle, hsaved⟩ := hrank (by omega)
        have hbefore := hsaved (by omega)
        have hnodup : (s.put id dir).runs.entries.Nodup := List.Nodup.of_map _ (Dict.nodup _)
        refine StableSort.Nodup.not_swap hnodup hbefore ?_
        have hb : b ∈ (s.put id dir).runs.entries :=
          hbefore.subset (List.mem_cons_of_mem _ (List.mem_cons_self ..))
        rw [entries_put hnew, List.mem_append, List.mem_singleton] at hb
        rw [entries_put hnew]
        rcases hb with hb | rfl
        · exact (List.singleton_sublist.mpr hb).append (List.Sublist.refl _)
        · exact absurd hbefore (StableSort.Nodup.not_swap hnodup hbefore)
      · have hself : newer env id (id, dir) = false := by
          simp [newer, hdir]
        rw [hperm.countP_eq, entries_put hnew, List.countP_append, List.countP_singleton, hself]
        have hkeep : (s.put id dir).keep = s.keep := rfl
        have hfew := hroom.few
        rw [hkeep]
        simp only [Bool.false_eq_true, if_false]
        omega
    intro e he
    have hmem := hperm.mem_iff.mp (List.mem_of_mem_take he)
    rw [entries_put hnew, List.mem_append, List.mem_singleton] at hmem
    rcases hmem with hmem | rfl
    · exact hmem
    · exact absurd he hnot
  · rw [oldest_eq_nil hnew hfull]
    nofun

theorem without_get? (old : List (RunId × RunDir)) (s : RunStore) (k : RunId) :
    (s.without old).runs.get? k = if k ∈ old.map Prod.fst then none else s.runs.get? k := by
  rw [without, Dict.get?_filter]
  by_cases hk : k ∈ old.map Prod.fst
  · rw [if_pos hk]
    cases s.runs.get? k with
    | none => rfl
    | some dir => simp [hk]
  · rw [if_neg hk]
    cases s.runs.get? k with
    | none => rfl
    | some dir => simp [hk]

/-- What stays is the end of the sorted list. -/
theorem without_oldest_perm (hstat : ∀ e ∈ s.runs.entries, env.stat_fails e.1 = false) :
    (s.without (oldest env s)).runs.entries.Perm
      ((dirs env s).drop ((dirs env s).length - s.keep.toNat)) := by
  have hperm := dirs_perm hstat
  have hnodup : ((dirs env s).map Prod.fst).Nodup :=
    (hperm.map Prod.fst).nodup_iff.mpr s.runs.nodup
  rw [← Dict.filter_notMem_take hnodup _ (p := fun e => e.1 ∉ (oldest env s).map Prod.fst)]
  · exact hperm.symm.filter _
  · exact fun e => decide_eq_true_iff

/-- After the eviction at most `keep` runs remain. -/
theorem size_without_oldest (hnew : s.runs.get? id = none) (hroom : Room s env id) :
    (((s.put id dir).without (oldest env (s.put id dir))).runs.size : Int) ≤ s.keep := by
  by_cases hfull : s.keep ≤ s.runs.size
  · have hlen := (without_oldest_perm (stat_put dir hnew hroom hfull)).length_eq
    have hkeep : (s.put id dir).keep = s.keep := rfl
    have hpos := hroom.few
    rw [List.length_drop, hkeep] at hlen
    rw [Dict.size, hlen]
    omega
  · have hle := List.length_filter_le
      (fun e => decide (e.1 ∉ (oldest env (s.put id dir)).map Prod.fst)) (s.put id dir).runs.entries
    have hsize := size_put dir hnew
    rw [Dict.size] at hsize
    have hwithout : ((s.put id dir).without (oldest env (s.put id dir))).runs.size ≤
        (s.put id dir).runs.entries.length := hle
    omega

/-- A run that is evicted is no younger than any of the `keep` that stay. -/
theorem oldest_le {e e' : RunId × RunDir} (hnew : s.runs.get? id = none) (hroom : Room s env id)
    (he : e ∈ oldest env (s.put id dir))
    (he' : e' ∈ ((s.put id dir).without (oldest env (s.put id dir))).runs.entries) :
    e.2.mtime ≤ e'.2.mtime ∧
      (((s.put id dir).without (oldest env (s.put id dir))).runs.size : Int) = s.keep := by
  by_cases hfull : s.keep ≤ s.runs.size
  · have hstat := stat_put dir hnew hroom hfull
    have hperm := without_oldest_perm hstat
    have hpair := (List.singleton_sublist.mpr he).append
      (List.singleton_sublist.mpr (hperm.mem_iff.mp he'))
    rw [oldest, List.take_append_drop] at hpair
    refine ⟨(dirs_pair hpair).1, ?_⟩
    have hlen := hperm.length_eq
    have hall := (dirs_perm hstat).length_eq
    have hsize := size_put dir hnew
    have hkeep : (s.put id dir).keep = s.keep := rfl
    have hpos := hroom.few
    rw [Dict.size] at hsize
    rw [List.length_drop, hall, hkeep] at hlen
    rw [Dict.size, hlen]
    omega
  · rw [oldest_eq_nil hnew hfull] at he
    cases he

end NewRun

/-! ## Saving -/

/-- Both methods look at the id first, and may then fail. -/
theorem entry_cases {α : Type} (env : RunEnv) (run_id : String)
    (f : RunId → Transaction RunStore RunError α) (s : RunStore) :
    ((run_id_re run_id = true → env.fault = some .access) ∧
      ∃ e, (run_dir run_id >>= fun id =>
        check (env.fault ≠ some .access) .os_error >>= fun _ => f id) s = (.error e, s)) ∨
    ∃ id : RunId, id.1 = run_id ∧ env.fault ≠ some .access ∧
      (run_dir run_id >>= fun id =>
        check (env.fault ≠ some .access) .os_error >>= fun _ => f id) s = f id s := by
  by_cases hvalid : run_id_re run_id = true
  · have hdir : run_dir run_id s = (.ok ⟨run_id, hvalid⟩, s) := run_dir_eq_ok.mpr ⟨rfl, rfl⟩
    rw [bind_of_ok hdir]
    by_cases haccess : env.fault = some .access
    · left
      refine ⟨fun _ => haccess, .os_error, bind_eq_error.mpr (.inl ?_)⟩
      rw [haccess]
      rfl
    · right
      have hcheck : check (decide (env.fault ≠ some .access)) RunError.os_error s = (.ok (), s) :=
        check_eq_ok.mpr ⟨decide_eq_true haccess, rfl⟩
      exact ⟨⟨run_id, hvalid⟩, rfl, haccess, by rw [bind_of_ok hcheck]⟩
  · left
    refine ⟨fun h => absurd h hvalid, .invalid_run_id run_id, bind_eq_error.mpr (.inl ?_)⟩
    rw [run_dir, dif_neg hvalid, raise_apply]

section Save

variable {env : RunEnv} {s t u : RunStore} {id : RunId} {dir : RunDir}

@[simp] theorem get?_put_self : (s.put id dir).runs.get? id = some dir := Dict.get?_set_self ..

theorem get?_put_ne {k : RunId} (h : k ≠ id) : (s.put id dir).runs.get? k = s.runs.get? k :=
  Dict.get?_set_ne _ _ (Ne.symm h)

theorem put_put (a b : RunDir) : (s.put id a).put id b = s.put id b := by
  rw [put, put, put, Dict.set_set]

/-- The stores agree but for one run. -/
structure OnlyAt (id : RunId) (s t : RunStore) : Prop where
  keep : t.keep = s.keep
  frame : ∀ k ≠ id, t.runs.get? k = s.runs.get? k

theorem OnlyAt.refl (id : RunId) (s : RunStore) : OnlyAt id s s := ⟨rfl, fun _ _ => rfl⟩

theorem OnlyAt.trans (h : OnlyAt id s t) (h' : OnlyAt id t u) : OnlyAt id s u :=
  ⟨h'.keep.trans h.keep, fun k hk => (h'.frame k hk).trans (h.frame k hk)⟩

theorem OnlyAt.put (id : RunId) (dir : RunDir) (s : RunStore) : OnlyAt id s (s.put id dir) :=
  ⟨rfl, fun _ hk => get?_put_ne hk⟩

theorem OnlyAt.mkdir (env : RunEnv) (id : RunId) (s : RunStore) :
    OnlyAt id s (RunStore.mkdir env id s) := by
  rw [RunStore.mkdir]
  split
  · exact .refl id s
  · exact .put id _ s

theorem OnlyAt.rmtree (env : RunEnv) (id : RunId) (s : RunStore) :
    OnlyAt id s (RunStore.rmtree env id s) := by
  rw [RunStore.rmtree]
  split
  · exact ⟨rfl, fun k hk => Dict.get?_erase_ne _ (Ne.symm hk)⟩
  · refine ⟨rfl, fun k hk => ?_⟩
    rw [Dict.get?_modify, if_neg (Ne.symm hk)]

theorem OnlyAt.write_json_atomic (env : RunEnv) (id : RunId) (file : RunFile) (data : Json)
    (s : RunStore) : OnlyAt id s (RunStore.write_json_atomic env id file data s).2 := by
  cases hcheck : decide (env.fault ≠ some (.write file)) with
  | false =>
      have h : check false (.os_error : RunError) s = (.error .os_error, s) := rfl
      rw [RunStore.write_json_atomic, hcheck, bind_eq_error.mpr (.inl h)]
      exact .refl id s
  | true =>
      have h : check true (.os_error : RunError) s = (.ok (), s) := rfl
      rw [RunStore.write_json_atomic, hcheck, bind_of_ok h]
      refine ⟨rfl, fun k hk => ?_⟩
      show (Dict.modify _ _ _).get? k = _
      rw [Dict.get?_modify, if_neg (Ne.symm hk)]

theorem OnlyAt.bind {x y : Transaction RunStore RunError Unit} (hx : ∀ s, OnlyAt id s (x s).2)
    (hy : ∀ s, OnlyAt id s (y s).2) (s : RunStore) : OnlyAt id s ((x >>= fun _ => y) s).2 := by
  have hfirst := hx s
  rcases h : x s with ⟨r, t⟩
  rw [h] at hfirst
  cases r with
  | error e =>
      rw [bind_eq_error.mpr (.inl h)]
      exact hfirst
  | ok u =>
      rw [bind_of_ok h]
      exact hfirst.trans (hy t)

theorem OnlyAt.write_files (env : RunEnv) (id : RunId) (files : RunFile → Json) (s : RunStore) :
    OnlyAt id s (RunStore.write_files env id files s).2 :=
  .bind (.write_json_atomic env id _ _)
    (.bind (.write_json_atomic env id _ _) (.write_json_atomic env id _ _)) s

theorem write_json_atomic_apply {file : RunFile} {data : Json}
    (hdir : s.runs.get? id = some dir) (hfault : env.fault ≠ some (.write file)) :
    write_json_atomic env id file data s =
      (.ok (), s.put id ⟨Function.update dir.files file (some data), env.clock⟩) := by
  have h : check (decide (env.fault ≠ some (.write file))) RunError.os_error s = (.ok (), s) :=
    check_eq_ok.mpr ⟨decide_eq_true hfault, rfl⟩
  rw [write_json_atomic, bind_of_ok h, write_apply, Dict.modify_of_get? _ _ hdir]
  rfl

/-- Without a fault all three files are written. -/
theorem write_files_apply (files : RunFile → Json) (hdir : s.runs.get? id = some dir)
    (hfault : ∀ file, env.fault ≠ some (.write file)) :
    write_files env id files s = (.ok (), s.put id ⟨fun file => some (files file), env.clock⟩) := by
  rw [write_files, bind_of_ok (write_json_atomic_apply hdir (hfault _)),
    bind_of_ok (write_json_atomic_apply get?_put_self (hfault _)),
    write_json_atomic_apply get?_put_self (hfault _), put_put, put_put]
  congr 3
  funext file
  cases file <;> rfl

/-- With one, `write_files` raises. -/
theorem write_files_fails (id : RunId) (files : RunFile → Json) (s : RunStore) {file : RunFile}
    (hfault : env.fault = some (.write file)) :
    ∃ t, write_files env id files s = (.error .os_error, t) := by
  have hraise : ∀ data t, write_json_atomic env id file data t = (.error .os_error, t) := by
    intro data t
    rw [write_json_atomic, hfault]
    simp only [ne_eq, not_true_eq_false, decide_false]
    rfl
  have hpass : ∀ g data t, g ≠ file →
      ∃ t', write_json_atomic env id g data t = (.ok (), t') := by
    intro g data t hg
    have hne : env.fault ≠ some (.write g) := by
      rw [hfault]
      rintro ⟨⟩
      exact hg rfl
    have h : check (decide (env.fault ≠ some (.write g))) RunError.os_error t = (.ok (), t) :=
      check_eq_ok.mpr ⟨decide_eq_true hne, rfl⟩
    rw [write_json_atomic, bind_of_ok h]
    exact ⟨_, rfl⟩
  rw [write_files]
  cases file with
  | run => exact ⟨s, bind_eq_error.mpr (.inl (hraise _ s))⟩
  | graph =>
      obtain ⟨t, ht⟩ := hpass .run (files .run) s nofun
      exact ⟨t, by rw [bind_of_ok ht]; exact bind_eq_error.mpr (.inl (hraise _ t))⟩
  | payloads =>
      obtain ⟨t, ht⟩ := hpass .run (files .run) s nofun
      obtain ⟨u, hu⟩ := hpass .graph (files .graph) t nofun
      exact ⟨u, by rw [bind_of_ok ht, bind_of_ok hu]; exact hraise _ u⟩

/-- Every `save` stops before it has changed anything, or fails in writing
and takes its directory away, or writes its run and evicts. -/
theorem save_cases (json_size : Json → Nat) (env : RunEnv) (run_data graph_data : Dict String Json)
    (payloads_data : Dict String (Dict String Json)) (s : RunStore) :
    ((run_id_re (generate_run_id env.ts env.hexdigest) = true → env.fault = some .access) ∧
      ∃ e, save json_size env run_data graph_data payloads_data s = (.error e, s)) ∨
    ∃ id : RunId, id.1 = generate_run_id env.ts env.hexdigest ∧ env.fault ≠ some .access ∧
      ((∃ file e t, env.fault = some (.write file) ∧ OnlyAt id s t ∧
          save json_size env run_data graph_data payloads_data s = (.error e, t)) ∨
        ((∀ file, env.fault ≠ some (.write file)) ∧
          save json_size env run_data graph_data payloads_data s = (evict env >>= fun _ => pure id)
            (s.put id ⟨fun file => some (saved_files json_size id run_data graph_data payloads_data
              file), env.clock⟩))) := by
  rcases entry_cases env (generate_run_id env.ts env.hexdigest) (fun run_id => do
      .write (mkdir env run_id)
      .tryCatch
        (write_files env run_id (saved_files json_size run_id run_data graph_data payloads_data))
        (fun e => do
          .write (rmtree env run_id)
          .raise e)
      evict env
      pure run_id) s with h | ⟨id, hgen, haccess, h⟩
  · exact .inl h
  right
  refine ⟨id, hgen, haccess, ?_⟩
  rw [save, h, write_bind_apply]
  obtain ⟨dir, hmade⟩ : ∃ dir, (mkdir env id s).runs.get? id = some dir := by
    rw [mkdir]
    split
    · exact Option.isSome_iff_exists.mp ‹_›
    · exact ⟨_, get?_put_self⟩
  -- either a file cannot be written and the directory is removed, or all are written
  rcases Classical.em (∃ file, env.fault = some (.write file)) with ⟨file, hfile⟩ | hnone
  · left
    obtain ⟨t, ht⟩ := write_files_fails id
      (saved_files json_size id run_data graph_data payloads_data) (mkdir env id s) hfile
    have honly := OnlyAt.write_files env id
      (saved_files json_size id run_data graph_data payloads_data) (mkdir env id s)
    rw [ht] at honly
    refine ⟨file, .os_error, rmtree env id t, hfile,
      ((OnlyAt.mkdir env id s).trans honly).trans (.rmtree env id t), ?_⟩
    apply bind_eq_error.mpr
    left
    rw [Transaction.tryCatch, ht]
    rfl
  · right
    have hfault : ∀ file, env.fault ≠ some (.write file) := fun file h => hnone ⟨file, h⟩
    refine ⟨hfault, ?_⟩
    have hwrite := write_files_apply (saved_files json_size id run_data graph_data payloads_data)
      hmade hfault
    have hput : ∀ dir', (mkdir env id s).put id dir' = s.put id dir' := by
      intro dir'
      rw [mkdir]
      split
      · rfl
      · exact put_put _ _
    rw [hput] at hwrite
    rw [bind_of_ok (show Transaction.tryCatch _ _ _ = _ by rw [Transaction.tryCatch, hwrite])]

/-- A save that nothing fails. -/
theorem save_apply (json_size : Json → Nat) (env : RunEnv) (run_data graph_data : Dict String Json)
    (payloads_data : Dict String (Dict String Json)) (s : RunStore)
    (hid : id.1 = generate_run_id env.ts env.hexdigest) (hfault : env.fault = none)
    (hkeep : 0 ≤ s.keep) (t : RunStore)
    (ht : t = s.put id ⟨fun file => some (saved_files json_size id run_data graph_data payloads_data
      file), env.clock⟩) (hgone : ∀ e ∈ oldest env t, env.remains e.1 = none) :
    save json_size env run_data graph_data payloads_data s =
      (.ok id, t.without (oldest env t)) := by
  subst ht
  rcases save_cases json_size env run_data graph_data payloads_data s with
    ⟨hinvalid, -⟩ | ⟨k, hk, -, ⟨file, e, t, hfile, -⟩ | ⟨-, heq⟩⟩
  · rw [← hid] at hinvalid
    cases hfault.symm.trans (hinvalid id.2)
  · cases hfault.symm.trans hfile
  · cases Subtype.ext (hk.trans hid.symm)
    have hlist : env.fault ≠ some .iterdir := by
      rw [hfault]
      nofun
    rw [heq, bind_of_ok (evict_apply (s := s.put id _) hlist hkeep hgone)]
    rfl

end Save

/-! ## Deleting -/

/-- Every `delete` stops before it has changed anything, or removes the
directory as far as it can be removed. -/
theorem delete_cases (env : RunEnv) (run_id : String) (s : RunStore) :
    (∃ e, delete env run_id s = (.error e, s)) ∨
    ∃ id : RunId, id.1 = run_id ∧ env.fault ≠ some .access ∧ s.runs.contains id = true ∧
      ((env.remains id = none ∧
          delete env run_id s = (.ok (), { s with runs := s.runs.erase id })) ∨
        ∃ remains, env.remains id = some remains ∧
          delete env run_id s = (.error .os_error, rmtree env id s)) := by
  rcases entry_cases env run_id (fun run_id => do
      let s ← .read
      .check (s.runs.contains run_id) (.unknown_run run_id)
      .write (rmtree env run_id)
      .check (env.remains run_id).isNone .os_error) s with h | ⟨id, hid, haccess, h⟩
  · exact .inl h.2
  rw [delete, h, bind_of_ok (read_apply s)]
  cases hknown : s.runs.contains id with
  | false => exact .inl ⟨.unknown_run id, rfl⟩
  | true =>
      right
      refine ⟨id, hid, haccess, hknown, ?_⟩
      have hpass : check true (RunError.unknown_run id) s = (.ok (), s) := rfl
      rw [bind_of_ok hpass, write_bind_apply]
      cases hremains : env.remains id with
      | none =>
          left
          rw [rmtree, hremains]
          exact ⟨rfl, rfl⟩
      | some remains =>
          right
          exact ⟨remains, rfl, rfl⟩

end RunStore

/-! ## The laws -/

/-- What a save writes under its id. -/
def RunCall.Saves (json_size : Json → Nat) (c : RunCall) (id : RunId) (files : RunFile → Json) :
    Prop :=
  match c.request with
  | .save run_data graph_data payloads_data =>
      files = RunStore.saved_files json_size id run_data graph_data payloads_data
  | .delete _ => False

/-- The call deletes the run. -/
def RunCall.Deletes (c : RunCall) (r : RunResult) (id : RunId) : Prop :=
  c.request = .delete id.1 ∧ r = .deleted

/-- The call saves another run and evicts this one: `keep` runs stay, none of
them older. -/
structure Evicts (s : RunStore) (r : RunResult) (id : RunId) (s' : RunStore) : Prop where
  saved : ∃ new, r = .saved new ∧ new ≠ id
  full : (s'.runs.size : Int) = s.keep
  oldest : ∀ dir, s.runs.get? id = some dir →
    ∀ k dir', s'.runs.get? k = some dir' → dir.mtime ≤ dir'.mtime

/-- What a call promises of the runs that are stored. -/
structure RunsKept (json_size : Json → Nat) (s : RunStore) (c : RunCall) (r : RunResult)
    (s' : RunStore) : Prop where
  /-- A run stays as it is unless it is deleted or evicted. -/
  kept : ∀ id files, s.Readable id files →
    s'.Readable id files ∨ (s'.runs.get? id = none ∧ (c.Deletes r id ∨ Evicts s r id s'))
  /-- A save adds a run, within the limit. -/
  saved : ∀ id, r = .saved id → s.runs.get? id = none ∧ (s'.runs.size : Int) ≤ s.keep ∧
    ∀ files, c.Saves json_size id files → s'.Readable id files

/-- The condition: a save gets an id that is free and finds room for its run,
and a delete removes all of a directory or nothing. -/
def RunCall.Careful (s : RunStore) (c : RunCall) : Prop :=
  match c.request with
  | .save _ _ _ => ∀ id : RunId, id.1 = generate_run_id c.env.ts c.env.hexdigest →
      c.env.fault ≠ some .access →
      s.runs.get? id = none ∧ (c.env.fault = none → s.Room c.env id)
  | .delete run_id => ∀ id : RunId, id.1 = run_id → c.env.fault ≠ some .access →
      ∀ remains, c.env.remains id = some remains → ∀ file, remains.stays file = true

section Laws

variable {json_size : Json → Nat} {s t : RunStore} {c : RunCall}

open RunStore Transaction

theorem RunStore.Readable.of_get? {id : RunId} {files : RunFile → Json} (h : s.Readable id files)
    (hget : t.runs.get? id = s.runs.get? id) : t.Readable id files := by
  rw [readable_iff] at h ⊢
  rwa [hget]

theorem RunStore.Readable.ne_of_free {id new : RunId} {files : RunFile → Json}
    (h : s.Readable id files) (hnew : s.runs.get? new = none) : id ≠ new := by
  rintro rfl
  obtain ⟨dir, hdir, -⟩ := readable_iff.mp h
  cases hnew.symm.trans hdir

/-- A call that fails and touches one run at most, which was not stored. -/
theorem RunsKept.of_onlyAt {id : RunId} {e : RunError} (hnew : s.runs.get? id = none)
    (h : OnlyAt id s t) : RunsKept json_size s c (.error e) t := by
  refine ⟨fun k files hk => .inl ?_, nofun⟩
  exact hk.of_get? (h.frame k (hk.ne_of_free hnew))

/-- A save that has written its run, in a store with room for it. -/
theorem RunsKept.of_room {id : RunId} {files : RunFile → Json} (hnew : s.runs.get? id = none)
    (hroom : s.Room c.env id) (hsaves : ∀ files', c.Saves json_size id files' → files' = files) :
    let dir : RunDir := ⟨fun file => some (files file), c.env.clock⟩
    RunsKept json_size s c (.saved id)
      ((s.put id dir).without (oldest c.env (s.put id dir))) := by
  intro dir
  have hdir : dir.mtime = c.env.clock := rfl
  have hold := new_notMem_oldest hdir hnew hroom
  -- only runs from before the save are evicted
  have hid : id ∉ (oldest c.env (s.put id dir)).map Prod.fst := by
    intro hmem
    obtain ⟨e, he, rfl⟩ := List.mem_map.mp hmem
    have hstored := (Dict.mem_entries_iff _).mp (hold e he)
    cases hnew.symm.trans hstored
  refine ⟨fun k files' hk => ?_, ?_⟩
  · have hne := hk.ne_of_free hnew
    by_cases hgone : k ∈ (oldest c.env (s.put id dir)).map Prod.fst
    · right
      refine ⟨by rw [without_get?, if_pos hgone], .inr ⟨⟨id, rfl, Ne.symm hne⟩, ?_, ?_⟩⟩
      · obtain ⟨e, he, rfl⟩ := List.mem_map.mp hgone
        have hstays : (id, dir) ∈
            ((s.put id dir).without (oldest c.env (s.put id dir))).runs.entries := by
          rw [Dict.mem_entries_iff, without_get?, if_neg hid, get?_put_self]
        exact (oldest_le hnew hroom he hstays).2
      · intro dir₀ hdir₀ k' dir' hdir'
        obtain ⟨e, he, rfl⟩ := List.mem_map.mp hgone
        cases hdir₀.symm.trans ((Dict.mem_entries_iff _).mp (hold e he))
        exact (oldest_le hnew hroom he ((Dict.mem_entries_iff _).mpr hdir')).1
    · left
      apply hk.of_get?
      rw [without_get?, if_neg hgone, get?_put_ne hne]
  · rintro _ ⟨⟩
    refine ⟨hnew, size_without_oldest hnew hroom, fun files' hfiles' => ?_⟩
    rw [hsaves files' hfiles', readable_iff]
    exact ⟨dir, by rw [without_get?, if_neg hid, get?_put_self], fun _ => rfl⟩

/-- A call that meets the condition keeps the runs. -/
theorem RunStore.call_kept (h : c.Careful s) :
    RunsKept json_size s c (s.call json_size c).1 (s.call json_size c).2 := by
  obtain ⟨request, env⟩ := c
  cases request with
  | save run_data graph_data payloads_data =>
      simp only [RunStore.call]
      rcases save_cases json_size env run_data graph_data payloads_data s with
        ⟨-, e, heq⟩ | ⟨id, hid, haccess, ⟨file, e, t, hfault, honly, heq⟩ | ⟨hfault, heq⟩⟩
      · rw [heq]
        exact ⟨fun k files hk => .inl hk, nofun⟩
      · rw [heq]
        exact .of_onlyAt (h id hid haccess).1 honly
      · obtain ⟨hnew, hroom⟩ := h id hid haccess
        rw [heq]
        by_cases hlist : env.fault = some .iterdir
        · have hcheck : ∀ t, evict env t = (.error .os_error, t) := by
            intro t
            rw [evict, hlist]
            rfl
          rw [bind_eq_error.mpr (.inl (hcheck _))]
          exact .of_onlyAt hnew (.put id _ s)
        · have hnone : env.fault = none := by
            rcases hf : env.fault with - | (_ | file | _)
            · rfl
            · exact absurd hf haccess
            · exact absurd hf (hfault file)
            · exact absurd hf hlist
          have hroom := hroom hnone
          have hkeep : 0 ≤ s.keep := le_trans (Int.natCast_nonneg _) (le_of_lt hroom.few)
          rw [← heq, save_apply _ _ _ _ _ _ hid hnone hkeep _ rfl (by
            intro e he
            have hstored := new_notMem_oldest rfl hnew hroom e he
            by_cases hfull : s.keep ≤ s.runs.size
            · exact hroom.removed hfull _ (List.mem_map_of_mem hstored)
            · rw [oldest_eq_nil hnew hfull] at he
              cases he)]
          exact RunsKept.of_room (c := ⟨.save run_data graph_data payloads_data, env⟩) hnew hroom
            fun _ hsaves => hsaves
  | delete run_id =>
      simp only [RunStore.call]
      rcases delete_cases env run_id s with
        ⟨e, heq⟩ | ⟨id, rfl, haccess, hknown, ⟨-, heq⟩ | ⟨remains, hremains, heq⟩⟩
      · rw [heq]
        exact ⟨fun k files hk => .inl hk, nofun⟩
      · rw [heq]
        refine ⟨fun k files hk => ?_, nofun⟩
        by_cases hk' : id = k
        · subst hk'
          exact .inr ⟨Dict.get?_erase_self _ _, .inl ⟨rfl, rfl⟩⟩
        · exact .inl (hk.of_get? (Dict.get?_erase_ne _ hk'))
      · rw [heq]
        refine ⟨fun k files hk => .inl ?_, nofun⟩
        have hall := h id rfl haccess remains hremains
        obtain ⟨dir, hdir, hfiles⟩ := readable_iff.mp hk
        rw [readable_iff, rmtree, hremains]
        by_cases hk' : id = k
        · subst hk'
          refine ⟨_, by rw [Dict.get?_modify, if_pos rfl, hdir]; rfl, fun file => ?_⟩
          simp only [hall, if_true]
          exact hfiles file
        · exact ⟨dir, by rw [Dict.get?_modify, if_neg hk', hdir], hfiles⟩

end Laws

/-! ## Histories -/

/-- The store after a call. -/
def RunStore.next (json_size : Json → Nat) (s : RunStore) (c : RunCall) : RunStore :=
  (s.call json_size c).2

/-- The call deletes or evicts the run. -/
def RunCall.Loses (json_size : Json → Nat) (s : RunStore) (c : RunCall) (id : RunId) : Prop :=
  c.Deletes (s.call json_size c).1 id ∨ Evicts s (s.call json_size c).1 id (s.next json_size c)

/-- Over a whole history: every call keeps the runs, and what a save has
stored reads back until the run is deleted or evicted. -/
def RunHistoryKept (json_size : Json → Nat) (s : RunStore) (calls : List RunCall) : Prop :=
  Runs.AllSteps (RunStore.next json_size)
    (fun t c => RunsKept json_size t c (t.call json_size c).1 (t.next json_size c)) s calls ∧
  ∀ pre c mid post id files, calls = pre ++ c :: mid ++ post →
    ((Runs.run (RunStore.next json_size) s pre).call json_size c).1 = .saved id →
    c.Saves json_size id files →
    (Runs.run (RunStore.next json_size) s (pre ++ c :: mid)).Readable id files ∨
    ∃ mid₁ d mid₂, mid = mid₁ ++ d :: mid₂ ∧
      d.Loses json_size (Runs.run (RunStore.next json_size) s (pre ++ c :: mid₁)) id

/-- A history whose calls all meet the condition keeps the runs. -/
theorem run_history_kept (json_size : Json → Nat) (s : RunStore) (calls : List RunCall)
    (h : Runs.AllSteps (RunStore.next json_size) (fun t c => c.Careful t) s calls) :
    RunHistoryKept json_size s calls := by
  have hkept : Runs.AllSteps (RunStore.next json_size)
      (fun t c => RunsKept json_size t c (t.call json_size c).1 (t.next json_size c)) s calls :=
    fun pre c post hsplit => RunStore.call_kept (h pre c post hsplit)
  refine ⟨hkept, ?_⟩
  rintro pre c mid post id files rfl hsaved hsaves
  have hstart := ((hkept pre c (mid ++ post) (by simp)).saved id hsaved).2.2 files hsaves
  have hrun : ∀ l, Runs.run (RunStore.next json_size) s (pre ++ c :: l) =
      Runs.run (RunStore.next json_size)
        ((Runs.run (RunStore.next json_size) s pre).next json_size c) l := by
    intro l
    rw [Runs.run_append]
    rfl
  have hmid : Runs.AllSteps (RunStore.next json_size)
      (fun t d => t.Readable id files →
        (t.next json_size d).Readable id files ∨ d.Loses json_size t id)
      ((Runs.run (RunStore.next json_size) s pre).next json_size c) mid := by
    rintro mid₁ d mid₂ rfl hread
    rw [← hrun] at hread ⊢
    rcases (hkept (pre ++ c :: mid₁) d (mid₂ ++ post) (by simp)).kept id files hread with
      hread' | ⟨-, hlost⟩
    · exact .inl hread'
    · exact .inr hlost
  rw [hrun]
  -- a run stays readable up to the step that loses it
  rcases Runs.AllSteps.kept_or (P := fun t => RunStore.Readable t id files) hstart hmid with
    hread | ⟨mid₁, d, mid₂, rfl, hlost⟩
  · exact .inl hread
  · exact .inr ⟨mid₁, d, mid₂, rfl, by rwa [hrun]⟩

/-- The id of a run. -/
def run_id_of (hash : String) (h : run_id_re ("2026-07-30T14-02-11Z-" ++ hash) = true) : RunId :=
  ⟨"2026-07-30T14-02-11Z-" ++ hash, h⟩

/-- A save of a graph of that name. -/
def save_named (name hexdigest : String) (clock : Int) : RunCall where
  request := .save Dict.empty (Dict.ofList [("name", .str name)]) Dict.empty
  env := { ts := "2026-07-30T14-02-11Z", hexdigest := hexdigest, clock := clock }

/-- The only run is evicted for a new one, which is deleted. -/
theorem run_history_kept_evicting : RunHistoryKept (fun _ => 0)
    { keep := 1, runs := Dict.ofList [(run_id_of "00aa" (by decide), { mtime := 1 })] }
    [save_named "b" "00bb" 2, { request := .delete "2026-07-30T14-02-11Z-00bb" }] := by
  apply run_history_kept
  rw [Runs.AllSteps.cons_iff, Runs.AllSteps.cons_iff]
  refine ⟨?_, ?_, Runs.AllSteps.nil⟩
  · intro id hid _
    cases (Subtype.ext hid : id = run_id_of "00bb" (by decide))
    exact ⟨rfl, fun _ => ⟨by decide, fun _ => ⟨rfl, fun _ _ => rfl⟩, fun _ _ _ => rfl⟩⟩
  · intro id _ _ remains hremains
    cases hremains

/-- A save under the id, when nothing fails. -/
theorem save_named_saved (name : String) (clock : Int) {s : RunStore} (hkeep : 0 ≤ s.keep) :
    (s.call (fun _ => 0) (save_named name "00aa" clock)).1 =
        .saved (run_id_of "00aa" (by decide)) ∧
      (s.next (fun _ => 0) (save_named name "00aa" clock)).keep = s.keep := by
  have hid : (run_id_of "00aa" (by decide)).1 = generate_run_id "2026-07-30T14-02-11Z" "00aa" := by
    decide
  have hsave := RunStore.save_apply (fun _ => 0) (save_named name "00aa" clock).env Dict.empty
    (Dict.ofList [("name", .str name)]) Dict.empty s hid rfl hkeep _ rfl fun _ _ => rfl
  rw [RunStore.next, RunStore.call]
  simp only [save_named] at hsave ⊢
  rw [hsave]
  exact ⟨rfl, rfl⟩

/-- Two saves that get one id. -/
def same_run_id : List RunCall := [save_named "a" "00aa" 1, save_named "b" "00aa" 1]

/-- The second is written into the directory of the first. -/
theorem same_run_id_not_kept : ¬ RunHistoryKept (fun _ => 0) { keep := 50 } same_run_id := by
  rintro ⟨hkept, -⟩
  obtain ⟨hfirst, hkeep⟩ := save_named_saved "a" 1 (s := { keep := 50 }) (by decide)
  obtain ⟨hsecond, -⟩ := save_named_saved "b" 1 (by rw [hkeep]; decide)
  have hread := ((hkept [] _ [save_named "b" "00aa" 1] rfl).saved _ hfirst).2.2 _ rfl
  have hkept' := hkept [save_named "a" "00aa" 1] _ [] rfl
  have hread' := (hkept'.saved _ hsecond).2.2 _ rfl
  rcases hkept'.kept _ _ hread with hstays | ⟨-, ⟨hdelete, -⟩ | ⟨⟨new, hnew, hne⟩, -, -⟩⟩
  · have hgraph := hstays.2.1.symm.trans hread'.2.1
    have hname : Json.obj [("name", .str "a")] = .obj [("name", .str "b")] := Except.ok.inj hgraph
    simp at hname
  · cases hdelete
  · cases hsecond.symm.trans hnew
    exact hne rfl

end EmergentFlow
