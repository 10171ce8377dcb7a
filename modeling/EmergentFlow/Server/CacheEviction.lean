import Mathlib.Algebra.Order.BigOperators.Group.List
import EmergentFlow.Lib.Runs
import EmergentFlow.Server.DiskStore

/-!
# Server — Cache Eviction

The order in which `ExecutionCache` (`server/cache.py`) evicts, over the files of `DiskStore`.
Here every call brings the time it is made at, which may be that of the call before, and
every `put` the order in which the directory happens to be listed.

The eviction of a `put` starts with its own entry when this is listed first among entries
of its time. And a `put` that cannot pickle its value leaves a payload behind that has no
metadata, before the cap is looked at.
-/

namespace EmergentFlow

namespace DiskStore

variable {α : Type}

/-! ## Calls -/

/-- `glob`: the files in no particular order. -/
structure Listing where
  order : List String → List String
  perm : ∀ l, (order l).Perm l

/-- The time of a pickle. -/
def used_at (s : DiskStore α) (key : String) : Nat :=
  ((s.pickles.get? key).map (·.mtime)).getD 0

/-- The keys sorted by `st_mtime`. -/
def sorted_keys (listing : Listing) (s : DiskStore α) : List String :=
  (listing.order s.pickles.keys).insertionSort fun a b => s.used_at a ≤ s.used_at b

/-- `get` at a time. -/
def get_at (s : DiskStore α) (key : String) (now : Nat) : DiskStore α :=
  match s.readable key with
  | none => { s with clock := now }
  | some _ => { s with
      pickles := s.pickles.modify key ({ · with mtime := now })
      clock := now }

/-- The files once the entry of a `put` is written. -/
def written (cfg : DiskConfig α) (s : DiskStore α) (key : String) (a : α) (size : Nat)
    (note : String × String) (now : Nat) : DiskStore α where
  pickles := s.pickles.set key ⟨some a, size, now⟩
  sidecars := s.sidecars.set key (cfg.sidecar_size note.1 note.2)
  clock := now

def drop_orphans (s : DiskStore α) : DiskStore α :=
  { s with sidecars := s.sidecars.filter fun key _ => s.pickles.contains key }

/-- `put` at a time. -/
def put_at (cfg : DiskConfig α) (s : DiskStore α) (key : String) (a : α) (note : String × String)
    (now : Nat) (listing : Listing) : DiskStore α :=
  match cfg.pickle a with
  | .error size =>
      { s with pickles := s.pickles.set key ⟨none, size, now⟩, clock := now }
  | .ok size =>
      let s := s.written cfg key a size note now
      (s.evict cfg.max_bytes (s.sorted_keys listing)).drop_orphans

/-! ## What eviction leaves -/

/-- The files without those of some keys. -/
def without (s : DiskStore α) (gone : List String) : DiskStore α :=
  { s with
    pickles := s.pickles.filter fun key _ => key ∉ gone
    sidecars := s.sidecars.filter fun key _ => key ∉ gone }

theorem filter_notMem_nil {β : Type} (d : Dict String β) :
    d.filter (fun key _ => key ∉ ([] : List String)) = d := by
  apply Dict.ext_entries
  simp [Dict.filter]

theorem filter_notMem_append {β : Type} (d : Dict String β) (gone gone' : List String) :
    (d.filter fun key _ => key ∉ gone).filter (fun key _ => key ∉ gone') =
      d.filter fun key _ => key ∉ gone ++ gone' := by
  apply Dict.ext_entries
  simp [Dict.filter, List.filter_filter, Bool.and_comm]

theorem erase_eq_filter {β : Type} (d : Dict String β) (key : String) :
    d.erase key = d.filter fun k _ => k ∉ [key] := by
  apply Dict.ext_entries
  simp [Dict.filter, Dict.erase, Dict.eraseL]

theorem without_nil (s : DiskStore α) : s.without [] = s := by
  rw [without, filter_notMem_nil, filter_notMem_nil]

theorem without_without (s : DiskStore α) (gone gone' : List String) :
    (s.without gone).without gone' = s.without (gone ++ gone') := by
  rw [without, without, filter_notMem_append, filter_notMem_append, without]

theorem unlink_eq (s : DiskStore α) (key : String) : s.unlink key = s.without [key] := by
  rw [unlink, erase_eq_filter, erase_eq_filter, without]

/-- How the loop splits the keys: it deletes the first ones, leaves one at least, and stops
when one is left or the files fit into the cap. Before each deletion they do not. -/
structure Evicted (max_bytes : Nat) (s : DiskStore α) (keys gone left : List String) : Prop where
  split : keys = gone ++ left
  left_ne : keys ≠ [] → left ≠ []
  fits : left.length ≤ 1 ∨ (s.without gone).total_bytes ≤ max_bytes
  needed : ∀ pre key post, gone = pre ++ key :: post → max_bytes < (s.without pre).total_bytes

theorem evict_spec (max_bytes : Nat) (s : DiskStore α) (keys : List String) :
    ∃ gone left, s.evict max_bytes keys = s.without gone ∧
      Evicted max_bytes s keys gone left := by
  induction keys generalizing s with
  | nil =>
      refine ⟨[], [], s.without_nil.symm, rfl, fun h => h, .inl (Nat.zero_le _), ?_⟩
      exact fun pre key post h => absurd h (by simp)
  | cons key rest ih =>
      -- the last key is never evicted, however large it is
      cases rest with
      | nil =>
          refine ⟨[], [key], s.without_nil.symm, rfl, fun _ => List.cons_ne_nil _ _,
            .inl (le_refl 1), ?_⟩
          exact fun pre key post h => absurd h (by simp)
      | cons next rest =>
          rw [evict]
          split
          · next hover =>
              obtain ⟨gone, left, heq, hevicted⟩ := ih (s.without [key])
              rw [unlink_eq, heq, without_without]
              refine ⟨key :: gone, left, rfl, ?_,
                fun _ => hevicted.left_ne (List.cons_ne_nil _ _), ?_, ?_⟩
              · rw [List.cons_append, ← hevicted.split]
              · have hfits := hevicted.fits
                rwa [without_without] at hfits
              · intro pre key' post hsplit
                cases pre with
                | nil => rwa [without_nil]
                | cons first pre =>
                    rw [List.cons_append, List.cons.injEq] at hsplit
                    obtain ⟨rfl, hsplit⟩ := hsplit
                    have hneeded := hevicted.needed pre key' post hsplit
                    rwa [without_without] at hneeded
          · next hfits =>
              refine ⟨[], key :: next :: rest, s.without_nil.symm, rfl,
                fun _ => List.cons_ne_nil _ _, .inr ?_, ?_⟩
              · rw [without_nil]
                exact Nat.le_of_not_lt hfits
              · exact fun pre key post h => absurd h (by simp)

/-! ## Sizes -/

theorem sum_filter_le {β : Type} (f : β → Nat) {p q : β → Bool} (l : List β)
    (h : ∀ b ∈ l, p b = true → q b = true) :
    ((l.filter p).map f).sum ≤ ((l.filter q).map f).sum := by
  have hsub : (l.filter p).Sublist (l.filter q) := by
    have hfilter : (l.filter q).filter p = l.filter p := by
      rw [List.filter_filter]
      refine List.filter_congr fun b hb => ?_
      cases hp : p b with
      | false => rfl
      | true => rw [h b hb hp]; rfl
    rw [← hfilter]
    exact List.filter_sublist
  exact (hsub.map f).sum_le_sum fun _ _ => Nat.zero_le _

end DiskStore

open DiskStore

variable {α : Type}

/-! ## Runs -/

/-- A call of the cache, the time it is made at, and for a `put` how the directory is listed. -/
inductive CacheCall (α : Type) where
  | get (key : String) (now : Nat)
  | put (key : String) (outputs : α) (note : String × String) (now : Nat) (listing : Listing)

def CacheCall.now : CacheCall α → Nat
  | .get _ now => now
  | .put _ _ _ now _ => now

/-- The files, and the uses there have been: the hits and the writes, oldest first. -/
structure CacheRun (α : Type) where
  store : DiskStore α := {}
  uses : List (String × Nat) := []

/-- When a key was used last. -/
def last_use (uses : List (String × Nat)) (key : String) : Option Nat :=
  ((uses.filter (·.1 = key)).getLast?).map (·.2)

def CacheRun.step (cfg : DiskConfig α) (st : CacheRun α) : CacheCall α → CacheRun α
  | .get key now => {
      store := st.store.get_at key now
      uses := if (st.store.readable key).isSome then st.uses ++ [(key, now)] else st.uses }
  | .put key outputs note now listing => {
      store := st.store.put_at cfg key outputs note now listing
      uses := st.uses ++ [(key, now)] }

/-- What a `put` of `key` promises of the files after it. -/
structure PutKept (cfg : DiskConfig α) (before after : CacheRun α) (key : String) (outputs : α) :
    Prop where
  bound : after.store.total_bytes ≤ cfg.max_bytes ∨ after.store.pickles.size = 1
  paired : ∀ k, k ∈ after.store.pickles.keys ↔ k ∈ after.store.sidecars.keys
  retained : after.store.readable key = some outputs
  lru : ∀ k ∈ key :: before.store.pickles.keys, k ∉ after.store.pickles.keys →
    ∀ k' ∈ after.store.pickles.keys, ∃ used used', last_use after.uses k = some used ∧
      last_use after.uses k' = some used' ∧ used ≤ used'

def CacheCall.Kept (cfg : DiskConfig α) (st : CacheRun α) (call : CacheCall α) : Prop :=
  match call with
  | .get .. => True
  | .put key outputs .. => PutKept cfg st (st.step cfg call) key outputs

/-- The clock does not run backward. -/
def CacheCall.Monotone (st : CacheRun α) (call : CacheCall α) : Prop :=
  st.store.clock ≤ call.now

instance (st : CacheRun α) (call : CacheCall α) : Decidable (call.Monotone st) :=
  inferInstanceAs (Decidable (st.store.clock ≤ call.now))

/-- The keys of the entries used before a time. -/
def DiskStore.older (s : DiskStore α) (now : Nat) : List String :=
  s.pickles.keys.filter fun k => s.used_at k < now

/-- The value of a `put` can be pickled; and no other entry was used at the very time of the
`put`, or those that were fit into the cap together with the new one. -/
def CacheCall.Clear (cfg : DiskConfig α) (st : CacheRun α) : CacheCall α → Prop
  | .get .. => True
  | .put key outputs note now _ => ∃ size, cfg.pickle outputs = .ok size ∧
      ((∀ k ∈ st.store.pickles.keys, st.store.used_at k = now → k = key) ∨
        let s := st.store.written cfg key outputs size note now
        (s.without (s.older now)).total_bytes ≤ cfg.max_bytes)

/-! ## The invariant -/

/-- No file is newer than the clock, payloads and metadata come in pairs, and the time of a
payload is that of its last use. -/
structure CacheInv (store : DiskStore α) (uses : List (String × Nat)) : Prop where
  recent : ∀ k ∈ store.pickles.keys, store.used_at k ≤ store.clock
  paired : ∀ k, k ∈ store.pickles.keys ↔ k ∈ store.sidecars.keys
  logged : ∀ k ∈ store.pickles.keys, last_use uses k = some (store.used_at k)

theorem last_use_concat (uses : List (String × Nat)) (key : String) (now : Nat) (k : String) :
    last_use (uses ++ [(key, now)]) k = if key = k then some now else last_use uses k := by
  rw [last_use, List.filter_append]
  by_cases hk : key = k
  · simp [hk]
  · simp [hk, last_use]

section Step

variable {cfg : DiskConfig α} {store : DiskStore α} {uses : List (String × Nat)}
  {key : String} {now : Nat}

/-- A use of a key, and nothing else. -/
theorem CacheInv.touch (h : CacheInv store uses) (hnow : store.clock ≤ now)
    {store' : DiskStore α} (hclock : store'.clock = now)
    (hpickles : ∀ k, k ∈ store'.pickles.keys ↔ k = key ∨ k ∈ store.pickles.keys)
    (hsidecars : ∀ k, k ∈ store'.sidecars.keys ↔ k = key ∨ k ∈ store.sidecars.keys)
    (hused : ∀ k, store'.used_at k = if key = k then now else store.used_at k) :
    CacheInv store' (uses ++ [(key, now)]) where
  recent k hk := by
    rw [hused, hclock]
    split
    · exact le_refl now
    · next hne => exact (h.recent k (((hpickles k).mp hk).resolve_left (Ne.symm hne))).trans hnow
  paired k := by rw [hpickles, hsidecars, h.paired]
  logged k hk := by
    rw [last_use_concat, hused]
    split
    · rfl
    · next hne => exact h.logged k (((hpickles k).mp hk).resolve_left (Ne.symm hne))

theorem CacheInv.get (h : CacheInv store uses) (hnow : store.clock ≤ now) :
    CacheInv (store.get_at key now)
      (if (store.readable key).isSome then uses ++ [(key, now)] else uses) := by
  rw [get_at]
  cases hread : store.readable key with
  | none => exact ⟨fun k hk => (h.recent k hk).trans hnow, h.paired, h.logged⟩
  | some a =>
      obtain ⟨file, hfile, -⟩ := Option.bind_eq_some_iff.mp hread
      have hkey : key ∈ store.pickles.keys := (Dict.mem_keys_iff _).mpr ⟨file, hfile⟩
      have hmem : ∀ k, k ∈ (store.pickles.modify key ({ · with mtime := now })).keys ↔
          k ∈ store.pickles.keys := by
        intro k
        rw [Dict.mem_keys_iff_isSome, Dict.mem_keys_iff_isSome, Dict.get?_modify]
        by_cases hk : key = k
        · subst hk
          simp [hfile]
        · simp [hk]
      refine h.touch hnow rfl (fun k => ?_) (fun k => ?_) fun k => ?_
      · rw [hmem]
        exact (or_iff_right_of_imp fun hk => hk ▸ hkey).symm
      · exact (or_iff_right_of_imp fun (hk : k = key) => (h.paired k).mp (hk ▸ hkey)).symm
      · rw [used_at, used_at, Dict.get?_modify]
        by_cases hk : key = k
        · subst hk
          simp [hfile]
        · simp [hk]

theorem CacheInv.written (h : CacheInv store uses) (hnow : store.clock ≤ now) (outputs : α)
    (size : Nat) (note : String × String) :
    CacheInv (store.written cfg key outputs size note now) (uses ++ [(key, now)]) := by
  refine h.touch hnow rfl (fun k => ?_) (fun k => ?_) fun k => ?_
  · rw [DiskStore.written, Dict.mem_keys_set]
  · rw [DiskStore.written, Dict.mem_keys_set]
  · rw [DiskStore.written, used_at, used_at, Dict.get?_set]
    by_cases hk : key = k <;> simp [hk]

/-! ## Eviction -/

theorem mem_pickles_without {s : DiskStore α} {gone : List String} {k : String} :
    k ∈ (s.without gone).pickles.keys ↔ k ∈ s.pickles.keys ∧ k ∉ gone := by
  rw [DiskStore.without, Dict.keys_filter, List.mem_filter, decide_eq_true_eq]

theorem mem_sidecars_without {s : DiskStore α} {gone : List String} {k : String} :
    k ∈ (s.without gone).sidecars.keys ↔ k ∈ s.sidecars.keys ∧ k ∉ gone := by
  rw [DiskStore.without, Dict.keys_filter, List.mem_filter, decide_eq_true_eq]

/-- The sizes of what is left when less is taken away. -/
theorem total_bytes_without_le {s : DiskStore α} {gone gone' : List String}
    (hpaired : ∀ k, k ∈ s.pickles.keys ↔ k ∈ s.sidecars.keys)
    (h : ∀ k ∈ s.pickles.keys, k ∈ gone' → k ∈ gone) :
    (s.without gone).total_bytes ≤ (s.without gone').total_bytes := by
  have hpickles := sum_filter_le (fun e : String × PickleFile α => e.2.size) s.pickles.entries
    (p := fun e => decide (e.1 ∉ gone)) (q := fun e => decide (e.1 ∉ gone')) (by
      intro e he hgone
      have hkey : e.1 ∈ s.pickles.keys := List.mem_map_of_mem he
      simpa using fun hgone' => of_decide_eq_true hgone (h e.1 hkey hgone'))
  have hsidecars := sum_filter_le (fun e : String × Nat => e.2) s.sidecars.entries
    (p := fun e => decide (e.1 ∉ gone)) (q := fun e => decide (e.1 ∉ gone')) (by
      intro e he hgone
      have hkey : e.1 ∈ s.sidecars.keys := List.mem_map_of_mem he
      simpa using fun hgone' =>
        of_decide_eq_true hgone (h e.1 ((hpaired e.1).mpr hkey) hgone'))
  simp only [total_bytes, DiskStore.without, Dict.filter, Dict.values, List.map_map]
  exact Nat.add_le_add hpickles hsidecars

theorem total_bytes_drop_orphans_le (s : DiskStore α) :
    s.drop_orphans.total_bytes ≤ s.total_bytes := by
  have hsub : (s.drop_orphans.sidecars.values).Sublist s.sidecars.values :=
    List.Sublist.map _ List.filter_sublist
  exact Nat.add_le_add_left (hsub.sum_le_sum fun _ _ => Nat.zero_le _) _

theorem sorted_keys_perm (listing : Listing) (s : DiskStore α) :
    (s.sorted_keys listing).Perm s.pickles.keys :=
  (List.perm_insertionSort _ _).trans (listing.perm _)

theorem sorted_keys_pairwise (listing : Listing) (s : DiskStore α) :
    (s.sorted_keys listing).Pairwise fun a b => s.used_at a ≤ s.used_at b :=
  have : Std.Total fun a b => s.used_at a ≤ s.used_at b := ⟨fun _ _ => Nat.le_total _ _⟩
  have : IsTrans String fun a b => s.used_at a ≤ s.used_at b := ⟨fun _ _ _ => Nat.le_trans⟩
  List.pairwise_insertionSort _ _

section Evicted

variable {listing : Listing} {gone left : List String}

/-- The evicted keys and those that are left. -/
theorem DiskStore.Evicted.perm
    (h : Evicted cfg.max_bytes store (store.sorted_keys listing) gone left) :
    (gone ++ left).Perm store.pickles.keys := h.split ▸ sorted_keys_perm listing store

theorem DiskStore.Evicted.nodup
    (h : Evicted cfg.max_bytes store (store.sorted_keys listing) gone left) :
    (gone ++ left).Nodup := h.perm.nodup_iff.mpr store.pickles.nodup_keys

theorem DiskStore.Evicted.mem_left
    (h : Evicted cfg.max_bytes store (store.sorted_keys listing) gone left)
    {k : String} : k ∈ (store.without gone).pickles.keys ↔ k ∈ left := by
  rw [mem_pickles_without, ← h.perm.mem_iff, List.mem_append]
  constructor
  · exact fun hk => hk.1.resolve_left hk.2
  · exact fun hk => ⟨.inr hk, fun hgone => (List.nodup_append.mp h.nodup).2.2 k hgone k hk rfl⟩

/-- Every evicted key was used no later than every key that is left. -/
theorem DiskStore.Evicted.used_at_le
    (h : Evicted cfg.max_bytes store (store.sorted_keys listing) gone left) {k k' : String}
    (hk : k ∈ gone) (hk' : k' ∈ left) : store.used_at k ≤ store.used_at k' := by
  have hsorted := sorted_keys_pairwise listing store
  rw [h.split] at hsorted
  exact (List.pairwise_append.mp hsorted).2.2 k hk k' hk'

/-- Where there is a key, one is left. -/
theorem DiskStore.Evicted.exists_left
    (h : Evicted cfg.max_bytes store (store.sorted_keys listing) gone left)
    (hkey : key ∈ store.pickles.keys) : ∃ k, k ∈ left := by
  refine List.exists_mem_of_ne_nil _ (h.left_ne fun hnil => ?_)
  have hmem := (sorted_keys_perm listing store).mem_iff.mpr hkey
  rw [hnil] at hmem
  cases hmem

theorem DiskStore.Evicted.size_eq_one
    (h : Evicted cfg.max_bytes store (store.sorted_keys listing) gone left)
    (hkey : key ∈ store.pickles.keys) (hone : left.length ≤ 1) :
    (store.without gone).pickles.size = 1 := by
  have hperm : ((store.without gone).pickles.keys).Perm left := by
    refine (List.perm_ext_iff_of_nodup (Dict.nodup_keys _) ?_).mpr fun k => h.mem_left
    exact (List.nodup_append.mp h.nodup).2.1
  have hlength : (store.without gone).pickles.size = left.length := by
    rw [← hperm.length_eq, Dict.keys, List.length_map, Dict.size]
  obtain ⟨k, hk⟩ := h.exists_left hkey
  have := List.length_pos_of_mem hk
  omega

/-- What comes behind a key in the order is used no earlier. -/
theorem DiskStore.Evicted.clock_le
    (h : Evicted cfg.max_bytes store (store.sorted_keys listing) gone left)
    (hused : store.used_at key = store.clock) {pre post : List String}
    (hsplit : gone = pre ++ key :: post) {k : String} (hk : k ∈ store.pickles.keys)
    (hpre : k ∉ pre) : store.clock ≤ store.used_at k := by
  have hsorted := sorted_keys_pairwise listing store
  have hmem := h.perm.mem_iff.mpr hk
  rw [h.split, hsplit, List.append_assoc, List.cons_append] at hsorted
  rw [hsplit, List.append_assoc, List.cons_append, List.mem_append] at hmem
  have hlater := (List.pairwise_cons.mp (List.pairwise_append.mp hsorted).2.1).1
  rcases List.mem_cons.mp (hmem.resolve_left hpre) with rfl | hbehind
  · exact hused.ge
  · exact hused.ge.trans (hlater k hbehind)

/-- An entry as new as the clock is not evicted when it is the only one or those as new as it
fit into the cap. -/
theorem DiskStore.Evicted.notMem_gone
    (h : Evicted cfg.max_bytes store (store.sorted_keys listing) gone left)
    (hinv : CacheInv store uses) (hkey : key ∈ store.pickles.keys)
    (hused : store.used_at key = store.clock)
    (hclear : (∀ k ∈ store.pickles.keys, store.used_at k = store.clock → k = key) ∨
      (store.without (store.older store.clock)).total_bytes ≤ cfg.max_bytes) : key ∉ gone := by
  intro hgone
  rcases hclear with halone | hfits
  · obtain ⟨k, hk⟩ := h.exists_left hkey
    have hmem : k ∈ store.pickles.keys := h.perm.mem_iff.mp (List.mem_append_right _ hk)
    have hle := h.used_at_le hgone hk
    have heq : k = key :=
      halone k hmem (Nat.le_antisymm (hinv.recent k hmem) (hused ▸ hle))
    exact (List.nodup_append.mp h.nodup).2.2 key hgone k hk heq.symm
  · obtain ⟨pre, post, hsplit⟩ := List.append_of_mem hgone
    have hover := h.needed pre key post hsplit
    have hle : (store.without pre).total_bytes ≤
        (store.without (store.older store.clock)).total_bytes := by
      -- what is older than the new entry comes before it, and was deleted first
      refine total_bytes_without_le hinv.paired fun k hk holder => ?_
      by_contra hpre
      have hge := h.clock_le hused hsplit hk hpre
      have hlt := of_decide_eq_true (List.mem_filter.mp holder).2
      omega
    omega

end Evicted

/-! ## A put -/

theorem get?_without {s : DiskStore α} {gone : List String} {k : String} (hk : k ∉ gone) :
    (s.without gone).pickles.get? k = s.pickles.get? k := by
  rw [DiskStore.without, Dict.get?_filter]
  cases s.pickles.get? k with
  | none => rfl
  | some file => rw [Option.filter_some, if_pos (decide_eq_true hk)]

theorem mem_sidecars_drop_orphans {s : DiskStore α} {k : String} :
    k ∈ s.drop_orphans.sidecars.keys ↔ k ∈ s.sidecars.keys ∧ k ∈ s.pickles.keys := by
  rw [drop_orphans, Dict.keys_filter, List.mem_filter, Dict.mem_keys_iff_isSome s.pickles,
    Dict.contains]

/-- Less of the files, in pairs as before. -/
theorem CacheInv.without (h : CacheInv store uses) (gone : List String) :
    CacheInv (store.without gone).drop_orphans uses := by
  have hused : ∀ k ∈ (store.without gone).pickles.keys,
      (store.without gone).used_at k = store.used_at k := by
    intro k hk
    rw [used_at, used_at, get?_without (mem_pickles_without.mp hk).2]
  refine ⟨fun k hk => ?_, fun k => ?_, fun k hk => ?_⟩
  · exact (hused k hk).trans_le (h.recent k (mem_pickles_without.mp hk).1)
  · rw [mem_sidecars_drop_orphans]
    refine ⟨fun hk => ⟨?_, hk⟩, fun hk => hk.2⟩
    obtain ⟨hk, hgone⟩ := mem_pickles_without.mp hk
    exact mem_sidecars_without.mpr ⟨(h.paired k).mp hk, hgone⟩
  · exact (h.logged k (mem_pickles_without.mp hk).1).trans (congrArg some (hused k hk).symm)

/-- The eviction after the entry of `key` is written, when it is clear. -/
theorem evict_kept (hinv : CacheInv store uses) (hkey : key ∈ store.pickles.keys)
    (hused : store.used_at key = store.clock)
    (hclear : (∀ k ∈ store.pickles.keys, store.used_at k = store.clock → k = key) ∨
      (store.without (store.older store.clock)).total_bytes ≤ cfg.max_bytes)
    (listing : Listing) {after : DiskStore α}
    (hafter : after = (store.evict cfg.max_bytes (store.sorted_keys listing)).drop_orphans) :
    CacheInv after uses ∧ after.readable key = store.readable key ∧
      (after.total_bytes ≤ cfg.max_bytes ∨ after.pickles.size = 1) ∧
      ∀ k ∈ store.pickles.keys, k ∉ after.pickles.keys → ∀ k' ∈ after.pickles.keys,
        k' ∈ store.pickles.keys ∧ store.used_at k ≤ store.used_at k' := by
  obtain ⟨gone, left, heq, h⟩ := evict_spec cfg.max_bytes store (store.sorted_keys listing)
  rw [heq] at hafter
  subst hafter
  have hnot := h.notMem_gone hinv hkey hused hclear
  refine ⟨hinv.without gone, ?_, ?_, fun k hk hgone k' hk' => ?_⟩
  · exact congrArg (Option.bind · (·.content)) (get?_without hnot)
  · refine h.fits.symm.imp (total_bytes_drop_orphans_le _).trans fun hone => ?_
    exact h.size_eq_one hkey hone
  · refine ⟨(mem_pickles_without.mp hk').1, h.used_at_le ?_ (h.mem_left.mp hk')⟩
    exact (List.mem_append.mp (h.perm.mem_iff.mpr hk)).resolve_right (mt h.mem_left.mpr hgone)

end Step

/-! ## The law -/

/-- A step on a clear call with a clock that does not run backward. -/
theorem CacheRun.step_kept {cfg : DiskConfig α} {st : CacheRun α} {call : CacheCall α}
    (hinv : CacheInv st.store st.uses) (hnow : call.Monotone st) (hclear : call.Clear cfg st) :
    CacheInv (st.step cfg call).store (st.step cfg call).uses ∧ call.Kept cfg st := by
  cases call with
  | get key now => exact ⟨hinv.get hnow, trivial⟩
  | put key outputs note now listing =>
      obtain ⟨size, hpickle, hclear⟩ := hclear
      have hwritten : CacheInv (st.store.written cfg key outputs size note now)
          (st.uses ++ [(key, now)]) := hinv.written hnow outputs size note
      have hkey : key ∈ (st.store.written cfg key outputs size note now).pickles.keys :=
        (Dict.mem_keys_set _ _).mpr (.inl rfl)
      have hused : (st.store.written cfg key outputs size note now).used_at key = now := by
        rw [used_at, DiskStore.written, Dict.get?_set_self]
        rfl
      have hread : (st.store.written cfg key outputs size note now).readable key =
          some outputs := by
        rw [readable, DiskStore.written, Dict.get?_set_self]
        rfl
      have hput : (st.step cfg (.put key outputs note now listing)).store =
          ((st.store.written cfg key outputs size note now).evict cfg.max_bytes
            ((st.store.written cfg key outputs size note now).sorted_keys
              listing)).drop_orphans := by
        simp only [CacheRun.step, put_at, hpickle]
      -- the write adds its own key, and no other, to those used now
      have hclear : (∀ k ∈ (st.store.written cfg key outputs size note now).pickles.keys,
          (st.store.written cfg key outputs size note now).used_at k = now → k = key) ∨
          ((st.store.written cfg key outputs size note now).without
            ((st.store.written cfg key outputs size note now).older now)).total_bytes ≤
              cfg.max_bytes := by
        refine hclear.imp_left fun halone k hk hk' => ?_
        by_contra hne
        rw [DiskStore.written, used_at, Dict.get?_set_ne _ _ (Ne.symm hne)] at hk'
        exact hne (halone k (((Dict.mem_keys_set _ _).mp hk).resolve_left hne) hk')
      obtain ⟨hafter, hretained, hbound, hlru⟩ :=
        evict_kept hwritten hkey hused hclear listing hput
      refine ⟨hafter, hbound, hafter.paired, hretained.trans hread, ?_⟩
      intro k hk hgone k' hk'
      have hmem : k ∈ (st.store.written cfg key outputs size note now).pickles.keys :=
        (Dict.mem_keys_set _ _).mpr (List.mem_cons.mp hk)
      obtain ⟨hmem', hle⟩ := hlru k hmem hgone k' hk'
      exact ⟨_, _, hwritten.logged k hmem, hwritten.logged k' hmem', hle⟩

theorem CacheInv.empty : CacheInv (α := α) {} [] where
  recent _ hk := nomatch hk
  paired _ := Iff.rfl
  logged _ hk := nomatch hk

/-- In every run with a clock that does not run backward, all of whose puts are clear, every
`put` leaves the files as it should. -/
theorem cache_eviction (cfg : DiskConfig α) {calls : List (CacheCall α)}
    (hnow : Runs.AllSteps (CacheRun.step cfg) CacheCall.Monotone {} calls)
    (hclear : Runs.AllSteps (CacheRun.step cfg) (fun st call => call.Clear cfg st) {} calls) :
    Runs.AllSteps (CacheRun.step cfg) (fun st call => call.Kept cfg st) {} calls := by
  have hboth : Runs.AllSteps (CacheRun.step cfg)
      (fun st call => call.Monotone st ∧ call.Clear cfg st) {} calls :=
    fun pre call post hsplit => ⟨hnow pre call post hsplit, hclear pre call post hsplit⟩
  exact hboth.imp (P := fun st => CacheInv st.store st.uses) CacheInv.empty
    fun st call hinv hok => CacheRun.step_kept hinv hok.1 hok.2

/-- A cache of 150 bytes for texts, of which the empty one cannot be pickled. -/
def small_cache : DiskConfig String where
  max_bytes := 150
  pickle outputs := if outputs = "" then .error 5 else .ok 100
  sidecar_size _ _ := 10
  collects_orphans := true

def as_listed : Listing := ⟨id, fun _ => .refl _⟩

def last_first : Listing := ⟨List.reverse, List.reverse_perm⟩

def put_text (key text : String) (now : Nat) (listing : Listing) : CacheCall String :=
  .put key text ("n", "") now listing

def unpickled : List (CacheCall String) := [put_text "a" "" 0 as_listed]

def at_one_time : List (CacheCall String) :=
  [put_text "a" "x" 0 as_listed, put_text "b" "y" 0 last_first]

/-- A value that cannot be pickled leaves a payload without metadata; and of two puts at one
time the second may be evicted by its own eviction. -/
theorem cache_not_kept :
    (Runs.AllSteps (CacheRun.step small_cache) CacheCall.Monotone {} unpickled ∧
      ¬ Runs.AllSteps (CacheRun.step small_cache) (fun st call => call.Kept small_cache st) {}
        unpickled) ∧
    Runs.AllSteps (CacheRun.step small_cache) CacheCall.Monotone {} at_one_time ∧
      ¬ Runs.AllSteps (CacheRun.step small_cache) (fun st call => call.Kept small_cache st) {}
        at_one_time := by
  refine ⟨⟨?_, fun h => ?_⟩, ?_, fun h => ?_⟩
  · exact Runs.AllSteps.cons_iff.mpr ⟨by decide, Runs.AllSteps.nil⟩
  · have hkept := h [] _ [] rfl
    exact absurd ((hkept.paired "a").mp (by decide)) (by decide)
  · simp only [at_one_time, Runs.AllSteps.cons_iff]
    exact ⟨by decide, by decide, Runs.AllSteps.nil⟩
  · have hkept := h [put_text "a" "x" 0 as_listed] _ [] rfl
    exact absurd hkept.retained (by decide)

theorem small_cache_kept :
    Runs.AllSteps (CacheRun.step small_cache) (fun st call => call.Kept small_cache st) {}
      [put_text "a" "x" 0 as_listed, .get "a" 1, put_text "b" "y" 2 last_first] := by
  refine cache_eviction small_cache ?_ ?_
  · simp only [Runs.AllSteps.cons_iff]
    exact ⟨by decide, by decide, by decide, Runs.AllSteps.nil⟩
  · simp only [Runs.AllSteps.cons_iff]
    exact ⟨⟨100, rfl, .inl (by decide)⟩, trivial, ⟨100, rfl, .inl (by decide)⟩, Runs.AllSteps.nil⟩

end EmergentFlow
