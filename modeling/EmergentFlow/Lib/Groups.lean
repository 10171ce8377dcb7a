import Mathlib.Data.List.Nodup
import Mathlib.Data.List.Perm.Basic
import EmergentFlow.Lib.StableSort

/-!
# Groups — the rows of a table by key

The groups of a table stand in the order in which their keys are first met, and the rows
of a group in the order of the table. A row without a key is in no group. What is made of
every group and put together is, key by key, what is made of that key's rows alone
(`filter_flatMap_groups`); sorted by the places of the rows it is what is made of each row in
its group, in the order of the table (`sort_flatMap_groups`).
-/

namespace Groups

variable {α β κ : Type} [DecidableEq κ]

def keys (key : α → Option κ) (l : List α) : List κ := (l.filterMap key).eraseDups

def group (key : α → Option κ) (l : List α) (k : κ) : List α := l.filter (key · = some k)

def groups (key : α → Option κ) (l : List α) : List (List α) := (keys key l).map (group key l)

variable {key : α → Option κ} {l : List α} {k : κ}

theorem mem_keys : k ∈ keys key l ↔ ∃ a ∈ l, key a = some k := by
  rw [keys, List.mem_eraseDups, List.mem_filterMap]

theorem mem_group {a : α} : a ∈ group key l k ↔ a ∈ l ∧ key a = some k := by
  rw [group, List.mem_filter, decide_eq_true_eq]

theorem group_eq_nil (h : k ∉ keys key l) : group key l k = [] := by
  rw [group, List.filter_eq_nil_iff]
  exact fun a ha hkey => h (mem_keys.mpr ⟨a, ha, of_decide_eq_true hkey⟩)

omit [DecidableEq κ] in
theorem nodup_eraseDups [BEq κ] [LawfulBEq κ] : (l : List κ) → l.eraseDups.Nodup
  | [] => by simp
  | a :: l => by
      rw [List.eraseDups_cons, List.nodup_cons]
      exact ⟨by simp [List.mem_eraseDups], nodup_eraseDups _⟩
termination_by l => l.length
decreasing_by exact Nat.lt_succ_of_le (List.length_filter_le _ _)

omit [DecidableEq κ] in
theorem eraseDups_append_singleton [BEq κ] [LawfulBEq κ] (l : List κ) (a : κ) :
    (l ++ [a]).eraseDups = if a ∈ l then l.eraseDups else l.eraseDups ++ [a] := by
  rw [List.eraseDups_append]
  by_cases h : a ∈ l
  · have hnone : [a].removeAll l = [] := by
      simp [List.removeAll, h]
    rw [hnone, if_pos h, List.eraseDups_nil, List.append_nil]
  · have hone : [a].removeAll l = [a] := by
      simp [List.removeAll, h]
    rw [hone, if_neg h, List.eraseDups_cons, List.filter_nil, List.eraseDups_nil]

theorem nodup_keys (key : α → Option κ) (l : List α) : (keys key l).Nodup := nodup_eraseDups _

/-! ## Putting groups together -/

/-- The groups of some of the keys hold the rows that have one of them. -/
theorem perm_flatMap_group (key : α → Option κ) (l : List α) {ks : List κ} (hks : ks.Nodup) :
    (ks.flatMap (group key l)).Perm (l.filter fun a => (key a).any (· ∈ ks)) := by
  induction ks with
  | nil =>
      have hnone : (l.filter fun a => (key a).any (· ∈ ([] : List κ))) = [] := by simp
      rw [hnone, List.flatMap_nil]
  | cons k ks ih =>
      rw [List.nodup_cons] at hks
      rw [List.flatMap_cons]
      have hsplit := List.filter_append_perm (key · = some k)
        (l.filter fun a => (key a).any (· ∈ k :: ks))
      refine ((List.Perm.append ?_ ((ih hks.2).trans ?_)).trans hsplit)
      · rw [List.filter_filter, group]
        refine List.Perm.of_eq (List.filter_congr fun a _ => ?_)
        cases key a <;> simp +contextual
      · rw [List.filter_filter]
        refine List.Perm.of_eq (List.filter_congr fun a _ => ?_)
        cases hkey : key a with
        | none => simp
        | some k' =>
            by_cases hk : k' = k
            · subst hk
              simp [hks.1]
            · simp [hk]

/-- The groups hold every row that has a key. -/
theorem perm_groups (key : α → Option κ) (l : List α) :
    (groups key l).flatten.Perm (l.filter fun a => (key a).isSome) := by
  rw [groups, ← List.flatMap_def]
  refine (perm_flatMap_group key l (nodup_keys key l)).trans (List.Perm.of_eq ?_)
  refine List.filter_congr fun a ha => ?_
  cases hkey : key a with
  | none => rfl
  | some k => simpa using mem_keys.mpr ⟨a, ha, hkey⟩

/-- Of what is made of the groups, the part of one key is what is made of its group. -/
theorem filter_flatMap_groups {f : List α → List β} {key' : β → Option κ} (hnil : f [] = [])
    (hkey : ∀ k, ∀ b ∈ f (group key l k), key' b = some k) (k : κ) :
    group key' ((groups key l).flatMap f) k = f (group key l k) := by
  -- each key occurs once among the groups, so its filter finds its own group alone
  have hgo : ∀ ks : List κ, ks.Nodup →
      group key' (ks.flatMap fun k => f (group key l k)) k =
        if k ∈ ks then f (group key l k) else [] := by
    intro ks hks
    induction ks with
    | nil => rfl
    | cons k' ks ih =>
        rw [List.nodup_cons] at hks
        rw [List.flatMap_cons, group, List.filter_append]
        have ih := ih hks.2
        rw [group] at ih
        rw [ih]
        by_cases hk : k' = k
        · subst hk
          have hall : (f (group key l k')).filter (key' · = some k') = f (group key l k') :=
            List.filter_eq_self.mpr fun b hb => decide_eq_true (hkey k' b hb)
          rw [hall, if_neg hks.1, if_pos (List.mem_cons_self ..), List.append_nil]
        · have hnone : (f (group key l k')).filter (key' · = some k) = [] := by
            refine List.filter_eq_nil_iff.mpr fun b hb => ?_
            rw [hkey k' b hb]
            simp [hk]
          rw [hnone, List.nil_append]
          simp [Ne.symm hk]
  rw [groups, List.flatMap_map, hgo _ (nodup_keys key l)]
  by_cases hk : k ∈ keys key l
  · rw [if_pos hk]
  · rw [if_neg hk, group_eq_nil hk, hnil]

/-- Groups that are treated one by one, put together and sorted by place are the rows in their
order, each treated in its group. -/
theorem sort_flatMap_groups (key : α → κ) {place : α → Nat} (place' : β → Nat)
    (f : List α → α → Option β) (hplace : l.Pairwise fun a b => place a < place b)
    (hf : ∀ sub a b, f sub a = some b → place' b = place a) :
    ((groups (fun a => some (key a)) l).flatMap fun sub => sub.filterMap (f sub)).mergeSort
        (fun b c => place' b ≤ place' c) =
      l.filterMap fun a => f (l.filter (key · = key a)) a := by
  let treat : α → Option β := fun a => f (l.filter (key · = key a)) a
  have hgroup : ∀ k, (group (fun a => some (key a)) l k).filterMap
      (f (group (fun a => some (key a)) l k)) = (group (fun a => some (key a)) l k).filterMap treat := by
    intro k
    refine List.filterMap_congr fun a ha => ?_
    have hkey : key a = k := Option.some.inj (mem_group.mp ha).2
    simp only [treat, group, hkey, Option.some.injEq]
  have hperm : ((groups (fun a => some (key a)) l).flatMap fun sub => sub.filterMap (f sub)).Perm
      (l.filterMap treat) := by
    have hkeyed : (l.filter fun a => (some (key a)).isSome) = l :=
      List.filter_eq_self.mpr fun _ _ => rfl
    have hall := (perm_groups (fun a => some (key a)) l).filterMap treat
    rw [hkeyed, List.filterMap_flatten, ← List.flatMap_def] at hall
    rw [groups, List.flatMap_map] at hall ⊢
    simpa only [hgroup] using hall
  have hsorted : (l.filterMap treat).Pairwise fun b c => place' b < place' c := by
    refine List.pairwise_filterMap.mpr (hplace.imp fun {a a'} hlt b hb c hc => ?_)
    rw [hf _ _ _ hb, hf _ _ _ hc]
    exact hlt
  -- places are distinct, so the sort has one result
  have hinj : ∀ b ∈ l.filterMap treat, ∀ c ∈ l.filterMap treat, place' b = place' c → b = c := by
    intro b hb c hc heq
    by_contra hne
    rcases StableSort.pair_or_swap hb hc hne with hpair | hpair
    · exact (List.pairwise_iff_forall_sublist.mp hsorted hpair).ne heq
    · exact (List.pairwise_iff_forall_sublist.mp hsorted hpair).ne heq.symm
  rw [StableSort.mergeSort_key_eq hperm hinj]
  exact List.mergeSort_of_pairwise (hsorted.imp fun h => decide_eq_true h.le)

end Groups
