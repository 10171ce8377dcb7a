import Mathlib.Algebra.Group.End
import Mathlib.Data.Finset.Max
import Mathlib.Data.Fintype.Basic
import Mathlib.Data.Prod.Lex
import Mathlib.Logic.Equiv.Basic
import EmergentFlow.Lib.StableSort

/-!
# AsOf — the rows that a row may look back on

Rows with dates stand in the order of their dates, and those of one date in the order of the
table. A row looks back on the allowed rows that stand up to it, or on the last few of them,
a window. Which rows these are depends on the order of the table, where dates repeat:
`used_eq_iff` says when it does not.
-/

namespace AsOf

variable {α T : Type*} [LinearOrder α] [LinearOrder T] (date : α → T) (τ : Equiv.Perm α)

/-- Where a row stands, when the table is in the order `τ`. -/
def place (r : α) : T ×ₗ α := toLex (date r, τ r)

variable {date τ}

theorem place_le_iff {r s : α} : place date τ r ≤ place date τ s ↔
    date r < date s ∨ date r = date s ∧ τ r ≤ τ s := Prod.Lex.toLex_le_toLex

theorem place_lt_iff {r s : α} : place date τ r < place date τ s ↔
    date r < date s ∨ date r = date s ∧ τ r < τ s := Prod.Lex.toLex_lt_toLex

omit [LinearOrder α] [LinearOrder T] in
theorem place_injective : Function.Injective (place date τ) := by
  intro r s h
  exact τ.injective (Prod.mk.inj (toLex.injective h)).2

theorem date_le_of_place_le {r s : α} (h : place date τ r ≤ place date τ s) : date r ≤ date s := by
  rcases place_le_iff.mp h with hlt | heq
  · exact hlt.le
  · exact heq.1.le

variable (date τ)

/-- The rows up to one. -/
def upTo (rows : Finset α) (j : α) : Finset α :=
  rows.filter fun r => place date τ r ≤ place date τ j

/-- The rows behind one. -/
def later (rows : Finset α) (r : α) : Finset α :=
  rows.filter fun s => place date τ r < place date τ s

/-- The last rows of a window, if there are as many; all rows without one. -/
def last (window : Option Nat) (rows : Finset α) : Finset α :=
  match window with
  | none => rows
  | some w => if w ≤ rows.card then rows.filter fun r => (later date τ rows r).card < w else ∅

/-- What a row looks back on. -/
def used (window : Option Nat) (allowed : Finset α) (j : α) : Finset α :=
  last date τ window (upTo date τ allowed j)

/-- Another allowed row has the date of this one. -/
def Tied (allowed : Finset α) (j : α) : Prop := ∃ r ∈ allowed, r ≠ j ∧ date r = date j

/-- No window of the row starts or ends between rows of one date. -/
def Settled (window : Option Nat) (allowed : Finset α) (j : α) : Prop :=
  let upToDate := allowed.filter fun r => date r ≤ date j
  match window with
  | none => ¬ Tied date allowed j
  | some w => upToDate.card < w ∨ (Tied date allowed j ∧ w = 1) ∨
      (¬ Tied date allowed j ∧ ∃ x, (upToDate.filter fun r => date r < x).card = upToDate.card - w)

variable {date τ} {rows allowed : Finset α} {r s j : α} {w : Nat} {window : Option Nat}

theorem mem_upTo : r ∈ upTo date τ rows j ↔ r ∈ rows ∧ place date τ r ≤ place date τ j :=
  Finset.mem_filter

theorem mem_later : s ∈ later date τ rows r ↔ s ∈ rows ∧ place date τ r < place date τ s :=
  Finset.mem_filter

theorem mem_last (h : w ≤ rows.card) :
    r ∈ last date τ (some w) rows ↔ r ∈ rows ∧ (later date τ rows r).card < w := by
  rw [last, if_pos h, Finset.mem_filter]

theorem last_of_few (h : rows.card < w) : last date τ (some w) rows = ∅ := if_neg (not_le.mpr h)

theorem last_subset : last date τ window rows ⊆ rows := by
  cases window with
  | none => exact Finset.Subset.refl rows
  | some w =>
      rw [last]
      split
      · exact Finset.filter_subset _ _
      · exact Finset.empty_subset _

variable (rows) in
theorem later_antitone (h : place date τ r ≤ place date τ s) :
    later date τ rows s ⊆ later date τ rows r := by
  intro t ht
  obtain ⟨hmem, hlt⟩ := mem_later.mp ht
  exact mem_later.mpr ⟨hmem, h.trans_lt hlt⟩

/-! ## Sorted lists -/

/-- In a sorted list, the last rows are those with few behind them. -/
theorem mem_drop_iff {l : List α} (hsorted : l.Pairwise fun r s => place date τ r < place date τ s)
    (hw : w ≤ l.length) (hr : r ∈ l) :
    r ∈ l.drop (l.length - w) ↔ (later date τ l.toFinset r).card < w := by
  have hnodup : l.Nodup := hsorted.imp fun h heq => h.ne (congrArg _ heq)
  have hlength : (l.drop (l.length - w)).length = w := by
    rw [List.length_drop]
    omega
  have hsplit := List.take_append_drop (l.length - w) l
  have hparts := hsplit ▸ hsorted
  rw [List.pairwise_append] at hparts
  have hcard : (l.drop (l.length - w)).toFinset.card = w := by
    rw [List.toFinset_card_of_nodup (hnodup.sublist (List.drop_sublist _ _)), hlength]
  constructor
  · intro hdrop
    -- what is behind it is in the last part, which also has the row itself
    have hsubset : later date τ l.toFinset r ⊆ (l.drop (l.length - w)).toFinset.erase r := by
      intro s hs
      obtain ⟨hmem, hlt⟩ := mem_later.mp hs
      refine Finset.mem_erase.mpr ⟨fun heq => hlt.ne (congrArg _ heq.symm), ?_⟩
      rw [List.mem_toFinset] at hmem ⊢
      rw [← hsplit] at hmem
      refine (List.mem_append.mp hmem).resolve_left fun htake => ?_
      exact absurd hlt (hparts.2.2 s htake r hdrop).not_gt
    have hle := Finset.card_le_card hsubset
    rw [Finset.card_erase_of_mem (List.mem_toFinset.mpr hdrop), hcard] at hle
    have hpos : 0 < w := hcard ▸ Finset.card_pos.mpr ⟨r, List.mem_toFinset.mpr hdrop⟩
    omega
  · intro hfew
    rw [← hsplit] at hr
    refine (List.mem_append.mp hr).resolve_left fun htake => ?_
    have hsubset : (l.drop (l.length - w)).toFinset ⊆ later date τ l.toFinset r := by
      intro s hs
      rw [List.mem_toFinset] at hs
      exact mem_later.mpr ⟨List.mem_toFinset.mpr (List.mem_of_mem_drop hs),
        hparts.2.2 r htake s hs⟩
    have hle := Finset.card_le_card hsubset
    omega

/-- The last rows of a window are the end of the sorted list. -/
theorem last_toFinset {l : List α} (hsorted : l.Pairwise fun r s => place date τ r < place date τ s)
    (hw : w ≤ l.length) :
    last date τ (some w) l.toFinset = (l.drop (l.length - w)).toFinset := by
  have hnodup : l.Nodup := hsorted.imp fun h heq => h.ne (congrArg _ heq)
  ext r
  rw [mem_last (by rwa [List.toFinset_card_of_nodup hnodup]), List.mem_toFinset, List.mem_toFinset]
  constructor
  · rintro ⟨hr, hfew⟩
    exact (mem_drop_iff hsorted hw hr).mpr hfew
  · intro hr
    exact ⟨List.mem_of_mem_drop hr, (mem_drop_iff hsorted hw (List.mem_of_mem_drop hr)).mp hr⟩

/-- The rows up to one are a beginning of the sorted list. -/
theorem mem_take_iff {l : List α} (hsorted : l.Pairwise fun r s => place date τ r < place date τ s)
    {k : Nat} (hk : l[k]? = some j) (hr : r ∈ l) :
    r ∈ l.take (k + 1) ↔ place date τ r ≤ place date τ j := by
  obtain ⟨hlt, hj⟩ := List.getElem?_eq_some_iff.mp hk
  have hsplit := List.take_append_drop (k + 1) l
  have hparts := hsplit ▸ hsorted
  rw [List.pairwise_append] at hparts
  have htake : l.take (k + 1) = l.take k ++ [j] := by rw [List.take_succ_eq_append_getElem hlt, hj]
  have hlast : j ∈ l.take (k + 1) := by
    rw [htake]
    exact List.mem_append_right _ (List.mem_singleton_self j)
  constructor
  · intro hmem
    rw [htake] at hmem hparts
    rcases List.mem_append.mp hmem with hbefore | hself
    · exact ((List.pairwise_append.mp hparts.1).2.2 r hbefore j (List.mem_singleton_self j)).le
    · exact (List.mem_singleton.mp hself) ▸ le_refl _
  · intro hle
    rw [← hsplit] at hr
    refine (List.mem_append.mp hr).resolve_right fun hdrop => ?_
    exact absurd hle (hparts.2.2 j hlast r hdrop).not_ge

/-- The rows in their order. -/
theorem exists_sorted (date : α → T) (τ : Equiv.Perm α) (rows : Finset α) : ∃ l : List α,
    l.toFinset = rows ∧ l.Pairwise fun r s => place date τ r < place date τ s := by
  have hperm := List.mergeSort_perm rows.toList fun r s => place date τ r ≤ place date τ s
  have hnodup := hperm.nodup_iff.mpr rows.nodup_toList
  refine ⟨_, (List.toFinset_eq_of_perm _ _ hperm).trans rows.toList_toFinset, ?_⟩
  refine ((StableSort.pairwise_mergeSort_key (place date τ) rows.toList).and hnodup).imp ?_
  rintro r s ⟨hle, hne⟩
  exact lt_of_le_of_ne hle (place_injective.ne hne)

theorem card_last (h : w ≤ rows.card) : (last date τ (some w) rows).card = w := by
  obtain ⟨l, rfl, hsorted⟩ := exists_sorted date τ rows
  have hnodup : l.Nodup := hsorted.imp fun h heq => h.ne (congrArg _ heq)
  rw [List.toFinset_card_of_nodup hnodup] at h
  rw [last_toFinset hsorted h, List.toFinset_card_of_nodup (hnodup.sublist (List.drop_sublist _ _)),
    List.length_drop]
  omega

/-- A table in another order is the table with other places. -/
theorem map_used (date : α → T) (σ : Equiv.Perm α) (window : Option Nat) (rows : Finset α) (j : α) :
    (used (date ∘ σ) 1 window rows j).map σ.toEmbedding =
      used date σ⁻¹ window (rows.map σ.toEmbedding) (σ j) := by
  have hplace : ∀ r, place date σ⁻¹ (σ r) = place (date ∘ σ) 1 r := by
    intro r
    rw [place, Equiv.Perm.inv_def, Equiv.symm_apply_apply]
    rfl
  have hlater : ∀ (rows : Finset α) r, (later (date ∘ σ) 1 rows r).map σ.toEmbedding =
      later date σ⁻¹ (rows.map σ.toEmbedding) (σ r) := by
    intro rows r
    simp only [later, Finset.filter_map, Function.comp_def, Equiv.coe_toEmbedding, hplace]
  have hup : (upTo (date ∘ σ) 1 rows j).map σ.toEmbedding =
      upTo date σ⁻¹ (rows.map σ.toEmbedding) (σ j) := by
    simp only [upTo, Finset.filter_map, Function.comp_def, Equiv.coe_toEmbedding, hplace]
  rw [used, used, ← hup]
  cases window with
  | none => rfl
  | some w =>
      rw [last, last, Finset.card_map]
      split
      · simp only [Finset.filter_map, Function.comp_def, Equiv.coe_toEmbedding, ← hlater,
          Finset.card_map]
      · rfl

/-! ## Rows that do not depend on the order -/

/-- Allowed rows up to a row are not dated after it. -/
theorem upTo_subset : upTo date τ allowed j ⊆ allowed.filter fun r => date r ≤ date j := by
  intro r hr
  obtain ⟨hmem, hle⟩ := mem_upTo.mp hr
  exact Finset.mem_filter.mpr ⟨hmem, date_le_of_place_le hle⟩

/-- With no other row of its date, a row has the allowed rows of its date and before up to it. -/
theorem upTo_of_not_tied (h : ¬ Tied date allowed j) :
    upTo date τ allowed j = allowed.filter fun r => date r ≤ date j := by
  refine Finset.Subset.antisymm upTo_subset fun r hr => ?_
  obtain ⟨hmem, hle⟩ := Finset.mem_filter.mp hr
  refine mem_upTo.mpr ⟨hmem, place_le_iff.mpr ?_⟩
  rcases hle.lt_or_eq with hlt | heq
  · exact .inl hlt
  · have hself : r = j := by
      by_contra hne
      exact h ⟨r, hmem, hne, heq⟩
    exact .inr ⟨heq, hself ▸ le_refl _⟩

/-- A window that starts at a date holds the rows from that date on. -/
theorem last_of_cut (hw : w ≤ rows.card) {x : T}
    (hcut : (rows.filter fun r => date r < x).card = rows.card - w) :
    last date τ (some w) rows = rows.filter fun r => ¬ date r < x := by
  have hrest : (rows.filter fun r => ¬ date r < x).card = w := by
    have hsum := Finset.card_filter_add_card_filter_not (s := rows) fun r => date r < x
    omega
  refine (Finset.eq_of_subset_of_card_le ?_ ?_).symm
  · intro r hr
    obtain ⟨hmem, hfrom⟩ := Finset.mem_filter.mp hr
    refine (mem_last hw).mpr ⟨hmem, ?_⟩
    have hsubset : later date τ rows r ⊆ (rows.filter fun r => ¬ date r < x).erase r := by
      intro s hs
      obtain ⟨hs, hlt⟩ := mem_later.mp hs
      refine Finset.mem_erase.mpr ⟨fun heq => hlt.ne (congrArg _ heq.symm), ?_⟩
      refine Finset.mem_filter.mpr ⟨hs, fun hbefore => hfrom ?_⟩
      exact (date_le_of_place_le hlt.le).trans_lt hbefore
    have hle := Finset.card_le_card hsubset
    rw [Finset.card_erase_of_mem hr, hrest] at hle
    have hpos : 0 < w := hrest ▸ Finset.card_pos.mpr ⟨r, hr⟩
    omega
  · rw [card_last hw, hrest]

/-- A window of one row is the row itself, where it is allowed. -/
theorem used_one (hj : j ∈ allowed) : used date τ (some 1) allowed j = {j} := by
  have hself : j ∈ upTo date τ allowed j := mem_upTo.mpr ⟨hj, le_refl _⟩
  have hpos : 1 ≤ (upTo date τ allowed j).card := Finset.card_pos.mpr ⟨j, hself⟩
  rw [used]
  refine (Finset.eq_of_subset_of_card_le (Finset.singleton_subset_iff.mpr ?_) ?_).symm
  · refine (mem_last hpos).mpr ⟨hself, ?_⟩
    rw [Nat.lt_one_iff, Finset.card_eq_zero, Finset.eq_empty_iff_forall_notMem]
    intro s hs
    obtain ⟨hs, hlt⟩ := mem_later.mp hs
    exact absurd hlt (mem_upTo.mp hs).2.not_gt
  · rw [card_last hpos, Finset.card_singleton]

/-- A settled row looks back on the same rows in every order. -/
theorem used_of_settled (h : Settled date window allowed j)
    (hj : Tied date allowed j → j ∈ allowed) (τ τ' : Equiv.Perm α) :
    used date τ window allowed j = used date τ' window allowed j := by
  cases window with
  | none => exact (upTo_of_not_tied h).trans (upTo_of_not_tied h).symm
  | some w =>
      rcases h with hfew | ⟨htied, rfl⟩ | ⟨hfree, x, hcut⟩
      · have hnone : ∀ τ : Equiv.Perm α, used date τ (some w) allowed j = ∅ := fun τ =>
          last_of_few ((Finset.card_le_card upTo_subset).trans_lt hfew)
        rw [hnone, hnone]
      · rw [used_one (hj htied), used_one (hj htied)]
      · rw [used, used, upTo_of_not_tied hfree, upTo_of_not_tied hfree]
        rcases Nat.lt_or_ge (allowed.filter fun r => date r ≤ date j).card w with hfew | hw
        · rw [last_of_few hfew, last_of_few hfew]
        · rw [last_of_cut hw hcut, last_of_cut hw hcut]

/-! ## Rows that do -/

/-- Two rows of one date may be exchanged in the order. -/
theorem notMem_used_swap (hne : r ≠ j) (hdate : date r = date j)
    (hr : r ∈ used date τ window allowed j) :
    r ∉ used date (τ * Equiv.swap r j) window allowed j := by
  have hup := (mem_upTo.mp (last_subset hr)).2
  have hlt : τ r < τ j := by
    rcases place_le_iff.mp hup with hlt | ⟨-, hle⟩
    · exact absurd hdate hlt.ne
    · exact lt_of_le_of_ne hle (τ.injective.ne hne)
  intro hr'
  have hup' := (mem_upTo.mp (last_subset hr')).2
  rcases place_le_iff.mp hup' with hbefore | ⟨-, hle⟩
  · exact hbefore.ne hdate
  · rw [Equiv.Perm.mul_apply, Equiv.Perm.mul_apply, Equiv.swap_apply_left,
      Equiv.swap_apply_right] at hle
    exact absurd hlt hle.not_gt

/-- In some order a row looks back on another of its date, unless its window has no room. -/
theorem exists_used_tied (hj : j ∈ allowed) (htied : Tied date allowed j)
    (hwindow : ∀ w, window = some w → 2 ≤ w ∧
      w ≤ (allowed.filter fun r => date r ≤ date j).card) :
    ∃ τ : Equiv.Perm α, ∃ r, r ≠ j ∧ date r = date j ∧ r ∈ used date τ window allowed j := by
  -- the row is put behind the others of its date
  let mates := allowed.filter fun r => date r = date j
  have hmates : mates.Nonempty := ⟨j, Finset.mem_filter.mpr ⟨hj, rfl⟩⟩
  let τ : Equiv.Perm α := Equiv.swap j (mates.max' hmates)
  have hτ : ∀ r ∈ mates, τ r ≤ τ j := by
    intro r hr
    rw [Equiv.swap_apply_left]
    by_cases hrj : r = j
    · rw [hrj, Equiv.swap_apply_left]
    · by_cases hmax : r = mates.max' hmates
      · rw [hmax, Equiv.swap_apply_right]
        exact mates.le_max' _ (Finset.mem_filter.mpr ⟨hj, rfl⟩)
      · rw [Equiv.swap_apply_of_ne_of_ne hrj hmax]
        exact mates.le_max' _ hr
  have hup : upTo date τ allowed j = allowed.filter fun r => date r ≤ date j := by
    refine Finset.Subset.antisymm upTo_subset fun r hr => ?_
    obtain ⟨hmem, hle⟩ := Finset.mem_filter.mp hr
    refine mem_upTo.mpr ⟨hmem, place_le_iff.mpr ?_⟩
    rcases hle.lt_or_eq with hlt | heq
    · exact .inl hlt
    · exact .inr ⟨heq, hτ r (Finset.mem_filter.mpr ⟨hmem, heq⟩)⟩
  -- and the last of these others has only the row behind it
  obtain ⟨s, hs, hsj, hsdate⟩ := htied
  obtain ⟨r, hr, hlast⟩ := (mates.erase j).exists_max_image τ
    ⟨s, Finset.mem_erase.mpr ⟨hsj, Finset.mem_filter.mpr ⟨hs, hsdate⟩⟩⟩
  obtain ⟨hrj, hr⟩ := Finset.mem_erase.mp hr
  obtain ⟨hrmem, hrdate⟩ := Finset.mem_filter.mp hr
  have hbehind : later date τ (upTo date τ allowed j) r ⊆ {j} := by
    intro t ht
    obtain ⟨htup, hlt⟩ := mem_later.mp ht
    obtain ⟨htmem, htle⟩ := mem_upTo.mp htup
    have htdate : date t = date j := le_antisymm (date_le_of_place_le htle)
      (hrdate ▸ date_le_of_place_le hlt.le)
    rw [Finset.mem_singleton]
    by_contra htj
    have hmax := hlast t (Finset.mem_erase.mpr ⟨htj, Finset.mem_filter.mpr ⟨htmem, htdate⟩⟩)
    rcases place_lt_iff.mp hlt with hbefore | ⟨-, hgt⟩
    · exact hbefore.ne (hrdate.trans htdate.symm)
    · exact absurd hgt hmax.not_gt
  have hrup : r ∈ upTo date τ allowed j := by
    rw [hup]
    exact Finset.mem_filter.mpr ⟨hrmem, hrdate.le⟩
  refine ⟨τ, r, hrj, hrdate, ?_⟩
  cases window with
  | none => exact hrup
  | some w =>
      obtain ⟨htwo, hroom⟩ := hwindow w rfl
      refine (mem_last (hup ▸ hroom)).mpr ⟨hrup, ?_⟩
      have hle := Finset.card_le_card hbehind
      rw [Finset.card_singleton] at hle
      omega

/-- A window that starts between two rows of one date holds one of them, or the other. -/
theorem exists_straddle (hpos : 0 < w) (hw : w ≤ rows.card)
    (hcut : ¬ ∃ x, (rows.filter fun r => date r < x).card = rows.card - w) :
    ∃ r ∈ last date τ (some w) rows, ∃ s ∈ rows, s ∉ last date τ (some w) rows ∧
      date r = date s := by
  by_contra hnone
  have hinside : (last date τ (some w) rows).Nonempty := by
    rw [← Finset.card_pos, card_last hw]
    exact hpos
  -- else the window starts at its first date
  obtain ⟨first, hfirst, hmin⟩ := (last date τ (some w) rows).exists_min_image date hinside
  refine hcut ⟨date first, ?_⟩
  have hbefore : rows.filter (fun r => date r < date first) = rows \ last date τ (some w) rows := by
    ext s
    rw [Finset.mem_filter, Finset.mem_sdiff]
    refine and_congr_right fun hs =>
      ⟨fun hlt hlast => absurd hlt (hmin s hlast).not_gt, fun hout => ?_⟩
    have hplace : place date τ s < place date τ first := by
      by_contra hle
      have hfew := ((mem_last hw).mp hfirst).2
      have hsmaller := Finset.card_le_card (later_antitone rows (not_lt.mp hle))
      exact hout ((mem_last hw).mpr ⟨hs, hsmaller.trans_lt hfew⟩)
    refine lt_of_le_of_ne (date_le_of_place_le hplace.le) fun hdate => ?_
    exact hnone ⟨first, hfirst, s, hs, hout, hdate.symm⟩
  rw [hbefore, Finset.card_sdiff_of_subset last_subset, card_last hw]

/-- Exchanging two rows of one date exchanges what is behind them. -/
theorem later_swap (hr : r ∈ rows) (hs : s ∈ rows) (hdate : date r = date s) :
    later date (Equiv.swap r s) rows s =
      (later date 1 rows r).map (Equiv.swap r s).toEmbedding := by
  have hdates : ∀ t, date (Equiv.swap r s t) = date t := by
    intro t
    rw [Equiv.swap_apply_def]
    split
    · next ht => rw [ht, hdate]
    · split
      · next ht => rw [ht, hdate]
      · rfl
  have hrows : ∀ t, Equiv.swap r s t ∈ rows ↔ t ∈ rows := by
    intro t
    rw [Equiv.swap_apply_def]
    split
    · next ht => simp [ht, hr, hs]
    · split
      · next ht => simp [ht, hr, hs]
      · rfl
  ext t
  rw [Finset.mem_map_equiv, Equiv.symm_swap, mem_later, mem_later, hrows, place_lt_iff, place_lt_iff,
    hdates, Equiv.swap_apply_right, hdate]
  rfl

/-- A row that is not settled looks back on other rows in another order. -/
theorem exists_used_ne (hwindow : ∀ w, window = some w → 0 < w)
    (hj : Tied date allowed j → j ∈ allowed) (h : ¬ Settled date window allowed j) :
    ∃ τ τ' : Equiv.Perm α, used date τ window allowed j ≠ used date τ' window allowed j := by
  by_cases htied : Tied date allowed j
  · have hroom : ∀ w, window = some w → 2 ≤ w ∧
        w ≤ (allowed.filter fun r => date r ≤ date j).card := by
      rintro w rfl
      have hpos := hwindow w rfl
      simp only [Settled, htied, true_and, not_true, false_and, or_false, not_or] at h
      omega
    obtain ⟨τ, r, hne, hdate, hr⟩ := exists_used_tied (hj htied) htied hroom
    refine ⟨τ, τ * Equiv.swap r j, fun heq => ?_⟩
    exact notMem_used_swap hne hdate hr (heq ▸ hr)
  · cases window with
    | none => exact absurd htied h
    | some w =>
        simp only [Settled, htied, false_and, not_false_eq_true, true_and, false_or, not_or,
          not_lt] at h
        have hup : ∀ τ, upTo date τ allowed j = allowed.filter fun r => date r ≤ date j :=
          fun τ => upTo_of_not_tied htied
        obtain ⟨r, hr, s, hs, hout, hdate⟩ := exists_straddle (τ := 1) (hwindow w rfl) h.1 h.2
        obtain ⟨hrmem, hfew⟩ := (mem_last h.1).mp hr
        refine ⟨1, Equiv.swap r s, fun heq => hout ?_⟩
        rw [used, used, hup, hup] at heq
        rw [heq, mem_last h.1, later_swap hrmem hs hdate, Finset.card_map]
        exact ⟨hs, hfew⟩

/-- A row looks back on the same rows in every order of the table exactly when it is settled. -/
theorem used_eq_iff (hwindow : ∀ w, window = some w → 0 < w)
    (hj : Tied date allowed j → j ∈ allowed) :
    (∀ τ, used date τ window allowed j = used date 1 window allowed j) ↔
      Settled date window allowed j := by
  constructor
  · intro hsame
    by_contra h
    obtain ⟨τ, τ', hne⟩ := exists_used_ne hwindow hj h
    exact hne ((hsame τ).trans (hsame τ').symm)
  · exact fun h τ => used_of_settled h hj τ 1

end AsOf
