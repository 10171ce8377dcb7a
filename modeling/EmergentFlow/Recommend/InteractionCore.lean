import Mathlib.Algebra.Field.Rat
import Mathlib.Algebra.Order.Ring.Rat
import Mathlib.Data.String.Basic
import EmergentFlow.Lib.Peel
import EmergentFlow.Recommend.Interactions

/-!
# Recommend — Interaction Core

The core of a table is the greatest part of its rows where every count is high enough. When
the loop of drops ends, the core is left (`filter_loop_rows`), whatever the order of drops. A
categorical column keeps the loop from ending once a category has too few rows
(`keeps_core_iff`).
-/

namespace EmergentFlow.Recommend

variable {U I K : Type} [DecidableEq U] [DecidableEq I]

/-- Every user and every item of the rows has its minimum of them. -/
def Dense (min_user min_item : Int) (rows : List (Interaction U I K)) : Prop :=
  (∀ user ∈ rows.map (·.user), min_user ≤ count_of (·.user) rows user) ∧
    ∀ item ∈ rows.map (·.item), min_item ≤ count_of (·.item) rows item

/-- The greatest part of the rows that is dense, in the order of the rows. -/
structure Core (min_user min_item : Int) (rows kept : List (Interaction U I K)) : Prop where
  sublist : kept.Sublist rows
  dense : Dense min_user min_item kept
  greatest : ∀ part, part.Subperm rows → Dense min_user min_item part → part.Subperm kept

/-- The rows whose key occurs often enough. -/
def enough {κ : Type} [DecidableEq κ] (key : Interaction U I K → κ) (least : Int)
    (rows : List (Interaction U I K)) : List (Interaction U I K) :=
  rows.filter fun row => least ≤ count_of key rows (key row)

/-- Which side a loop drops first that counts again before it drops the other. -/
inductive Side where
  | users
  | items
  deriving DecidableEq, Repr

def drop_side (min_user min_item : Int) (side : Side) (rows : List (Interaction U I K)) :
    List (Interaction U I K) :=
  match side with
  | .users => enough (·.user) min_user rows
  | .items => enough (·.item) min_item rows

def Side.other : Side → Side
  | .users => .items
  | .items => .users

/-- A round of that loop. -/
def side_round (min_user min_item : Int) (first : Side) (rows : List (Interaction U I K)) :
    List (Interaction U I K) :=
  drop_side min_user min_item first.other (drop_side min_user min_item first rows)

/-- A row whose user or item has too few rows. -/
def low (min_user min_item : Int) (rows : List (Interaction U I K)) (row : Interaction U I K) :
    Bool :=
  count_of (·.user) rows row.user < min_user || count_of (·.item) rows row.item < min_item

/-! ## Counts -/

section Counts

variable {κ : Type} [DecidableEq κ] {key : Interaction U I K → κ} {least : Int}
  {rows part : List (Interaction U I K)}

omit [DecidableEq U] [DecidableEq I] in
theorem count_of_le (key : Interaction U I K → κ) (h : part.Subperm rows) (k : κ) :
    count_of key part k ≤ count_of key rows k := by
  have hmap : (part.map key).Subperm (rows.map key) := by
    obtain ⟨part', hperm, hsub⟩ := h
    exact ⟨part'.map key, hperm.map key, hsub.map key⟩
  exact Int.ofNat_le.mpr (hmap.count_le k)

omit [DecidableEq U] [DecidableEq I] in
theorem count_of_perm (key : Interaction U I K → κ) (h : part.Perm rows) (k : κ) :
    count_of key part k = count_of key rows k :=
  Int.le_antisymm (count_of_le key h.subperm k) (count_of_le key h.symm.subperm k)

omit [DecidableEq U] [DecidableEq I] in
theorem enough_sublist : (enough key least rows).Sublist rows := List.filter_sublist

omit [DecidableEq U] [DecidableEq I] in
theorem enough_mono (h : part.Sublist rows) :
    (enough key least part).Sublist (enough key least rows) := by
  refine (List.monotone_filter_right part fun row hrow => ?_).trans (h.filter _)
  have hle := count_of_le key h.subperm (key row)
  simp only [decide_eq_true_eq] at hrow ⊢
  omega

omit [DecidableEq U] [DecidableEq I] in
theorem enough_perm (h : part.Perm rows) :
    (enough key least part).Perm (enough key least rows) := by
  simp only [enough, count_of_perm key h]
  exact h.filter _

omit [DecidableEq U] [DecidableEq I] in
/-- A key that occurs often enough keeps all its rows. -/
theorem count_of_enough {k : κ} (h : least ≤ count_of key rows k) :
    count_of key (enough key least rows) k = count_of key rows k := by
  simp only [count_of, enough, List.count_eq_countP, List.countP_map, List.countP_filter] at h ⊢
  congr 2
  funext row
  by_cases hk : key row = k
  · simp [hk, h]
  · simp [hk]

omit [DecidableEq U] [DecidableEq I] in
theorem enough_enough : enough key least (enough key least rows) = enough key least rows := by
  rw [enough, List.filter_eq_self]
  intro row hrow
  have hleast := List.of_mem_filter hrow
  rw [decide_eq_true_eq] at hleast ⊢
  rw [count_of_enough hleast]
  exact hleast

omit [DecidableEq U] [DecidableEq I] in
theorem mem_low_keys {column : Column κ} (hhold : ∀ row ∈ rows, column.Holds (key row)) {k : κ} :
    k ∈ low_keys column key least rows ↔
      ((∃ row ∈ rows, key row = k) ∨ k ∈ column.categories) ∧ count_of key rows k < least := by
  rw [low_keys, List.mem_filter, Column.mem_index (List.forall_mem_map.mpr hhold), List.mem_map,
    decide_eq_true_eq]

omit [DecidableEq U] [DecidableEq I] in
/-- A categorical column has no low key when every category occurs often enough. -/
theorem low_keys_eq_nil {column : Column κ} (hhold : ∀ row ∈ rows, column.Holds (key row))
    {k : κ} (hk : k ∈ column.categories)
    (hcategories : ∀ k ∈ column.categories, least ≤ count_of key rows k) :
    low_keys column key least rows = [] := by
  cases column with
  | plain => cases hk
  | categorical categories distinct =>
      rw [List.eq_nil_iff_forall_not_mem]
      intro k' hlow
      obtain ⟨hk', hcount⟩ := (mem_low_keys hhold).mp hlow
      have hcategory : k' ∈ categories := by
        rcases hk' with ⟨row, hrow, rfl⟩ | hk'
        · exact hhold row hrow
        · exact hk'
      exact absurd (hcategories k' hcategory) (not_le.mpr hcount)

end Counts

variable {min_user min_item : Int}

section Low

variable {rows kept : List (Interaction U I K)}

theorem low_eq_false (row : Interaction U I K) : low min_user min_item rows row = false ↔
    min_user ≤ count_of (·.user) rows row.user ∧ min_item ≤ count_of (·.item) rows row.item := by
  simp [low]

theorem not_low (row : Interaction U I K) : (!low min_user min_item rows row) =
    (decide (min_user ≤ count_of (·.user) rows row.user) &&
      decide (min_item ≤ count_of (·.item) rows row.item)) := by
  rw [Bool.eq_iff_iff]
  simp [low]

theorem low_hereditary : Peel.Hereditary (low (U := U) (I := I) (K := K) min_user min_item) := by
  intro part rows hpart row hlow
  simp only [low, Bool.or_eq_true, decide_eq_true_eq] at hlow ⊢
  rcases hlow with hlow | hlow
  · exact Or.inl (lt_of_le_of_lt (count_of_le _ hpart _) hlow)
  · exact Or.inr (lt_of_le_of_lt (count_of_le _ hpart _) hlow)

theorem dense_iff :
    Dense min_user min_item rows ↔ Peel.Stable (low min_user min_item) rows := by
  simp only [Dense, Peel.Stable, low_eq_false, List.forall_mem_map]
  exact ⟨fun h row hrow => ⟨h.1 row hrow, h.2 row hrow⟩,
    fun h => ⟨fun row hrow => (h row hrow).1, fun row hrow => (h row hrow).2⟩⟩

theorem core_of_greatest (h : Peel.Greatest (low min_user min_item) rows kept) :
    Core min_user min_item rows kept where
  sublist := h.sublist
  dense := dense_iff.mpr h.stable
  greatest part hpart hdense := h.greatest part hpart (dense_iff.mp hdense)

theorem Core.to_greatest (h : Core min_user min_item rows kept) :
    Peel.Greatest (low min_user min_item) rows kept where
  sublist := h.sublist
  stable := dense_iff.mp h.dense
  greatest part hpart hstable := h.greatest part hpart (dense_iff.mpr hstable)

end Low

/-! ## Rounds -/

variable (min_user min_item) in
theorem drop_side_portion (side : Side) :
    Peel.Portion (low (U := U) (I := I) (K := K) min_user min_item)
      (drop_side min_user min_item side) := by
  cases side with
  | users =>
      refine Peel.Portion.filter low_hereditary fun rows row _ hdrop => ?_
      rw [decide_eq_false_iff_not, not_le] at hdrop
      simp [low, hdrop]
  | items =>
      refine Peel.Portion.filter low_hereditary fun rows row _ hdrop => ?_
      rw [decide_eq_false_iff_not, not_le] at hdrop
      simp [low, hdrop]

/-- Rows that neither side drops from are not low. -/
theorem stable_of_drop_side {rows : List (Interaction U I K)}
    (h : ∀ side, drop_side min_user min_item side rows = rows) :
    Peel.Stable (low min_user min_item) rows := by
  intro row hrow
  have huser := List.filter_eq_self.mp (h .users) row hrow
  have hitem := List.filter_eq_self.mp (h .items) row hrow
  rw [decide_eq_true_eq] at huser hitem
  exact (low_eq_false row).mpr ⟨huser, hitem⟩

variable (min_user min_item) in
/-- A side that is not low is left alone, so that the round then drops the other. -/
theorem side_round_round (first : Side) :
    Peel.Round (low (U := U) (I := I) (K := K) min_user min_item)
      (side_round min_user min_item first) := by
  refine ((drop_side_portion _ _ first).comp (drop_side_portion _ _ first.other)).round
    fun rows hstable hsame => hstable (stable_of_drop_side ?_)
  have hfirst : drop_side min_user min_item first rows = rows := by
    refine ((drop_side_portion min_user min_item first).sublist rows).eq_of_length_le ?_
    have hother := (drop_side_portion min_user min_item first.other).sublist (drop_side min_user min_item first rows)
    rw [hsame] at hother
    exact hother.length_le
  rw [hfirst] at hsame
  intro side
  cases first <;> cases side <;> first | exact hfirst | exact hsame

variable (min_user min_item) in
/-- The loop that drops one side, counts again and drops the other. -/
def side_loop (first : Side) (rows : List (Interaction U I K)) : List (Interaction U I K) :=
  Peel.loop (side_round_round min_user min_item first) rows

variable (min_user min_item) in
/-- The round that drops every low row. -/
theorem low_round : Peel.Round (low (U := U) (I := I) (K := K) min_user min_item)
    fun rows => rows.filter fun row => !low min_user min_item rows row := by
  refine (Peel.Portion.filter low_hereditary fun rows row _ hdrop => ?_).round
    fun rows hstable hsame => hstable fun row hrow => ?_
  · simpa using hdrop
  · simpa using List.filter_eq_self.mp hsame row hrow

/-- The loop that drops every low row. -/
theorem low_loop_round (rows : List (Interaction U I K)) :
    Peel.loop (low_round min_user min_item) (rows.filter fun row => !low min_user min_item rows row)
      = Peel.loop (low_round min_user min_item) rows := by
  by_cases hstable : Peel.Stable (low min_user min_item) rows
  · have hsame : (rows.filter fun row => !low min_user min_item rows row) = rows :=
      List.filter_eq_self.mpr fun row hrow => by simp [hstable row hrow]
    rw [hsame]
  · rw [Peel.loop.eq_def _ rows, dif_neg hstable]

section Table

variable {table : Table U I K}

omit [DecidableEq I] in
theorem mem_low_users {user : U} : user ∈ low_users min_user table ↔
    ((∃ row ∈ table.rows, row.user = user) ∨ user ∈ table.users.categories) ∧
      count_of (·.user) table.rows user < min_user :=
  mem_low_keys table.users_hold

omit [DecidableEq U] in
theorem mem_low_items {item : I} : item ∈ low_items min_item table ↔
    ((∃ row ∈ table.rows, row.item = item) ∨ item ∈ table.items.categories) ∧
      count_of (·.item) table.rows item < min_item :=
  mem_low_keys table.items_hold

omit [DecidableEq U] [DecidableEq I] in
theorem drop_keys_eq {κ : Type} [DecidableEq κ] (key : Interaction U I K → κ) (low : List κ)
    (table : Table U I K) : drop_keys key low table = table.filter (key · ∉ low) := by
  rw [drop_keys]
  split
  · next h => simp [h, Table.filter]
  · rfl

@[simp] theorem filter_round_users :
    (filter_round min_user min_item table).users = table.users := by
  simp [filter_round, drop_keys_eq]

@[simp] theorem filter_round_items :
    (filter_round min_user min_item table).items = table.items := by
  simp [filter_round, drop_keys_eq]

/-- The round of the source, with both counts taken before either drop, drops the low rows. -/
theorem filter_round_rows : (filter_round min_user min_item table).rows =
    table.rows.filter fun row => !low min_user min_item table.rows row := by
  rw [filter_round, drop_keys_eq, drop_keys_eq, Table.filter_rows, Table.filter_rows,
    List.filter_filter]
  refine List.filter_congr fun row hrow => ?_
  have huser : row.user ∈ low_users min_user table ↔
      count_of (·.user) table.rows row.user < min_user := by
    simp only [mem_low_users, and_iff_right_iff_imp]
    exact fun _ => Or.inl ⟨row, hrow, rfl⟩
  have hitem : row.item ∈ low_items min_item table ↔
      count_of (·.item) table.rows row.item < min_item := by
    simp only [mem_low_items, and_iff_right_iff_imp]
    exact fun _ => Or.inl ⟨row, hrow, rfl⟩
  simp [huser, hitem, not_low]

theorem stable_of_none_low (h : low_items min_item table = [] ∧ low_users min_user table = []) :
    Peel.Stable (low min_user min_item) table.rows := by
  intro row hrow
  rw [low_eq_false]
  constructor
  · by_contra hcount
    have hlow := mem_low_users.mpr ⟨Or.inl ⟨row, hrow, rfl⟩, not_le.mp hcount⟩
    rw [h.2] at hlow
    cases hlow
  · by_contra hcount
    have hlow := mem_low_items.mpr ⟨Or.inl ⟨row, hrow, rfl⟩, not_le.mp hcount⟩
    rw [h.1] at hlow
    cases hlow

end Table

/-- What the loop leaves when it ends. -/
theorem filter_loop_rows {fuel : Nat} {st st' : Filtered U I K}
    (h : filter_loop min_user min_item fuel st = some st') :
    st'.table.rows = Peel.loop (low_round min_user min_item) st.table.rows := by
  induction fuel generalizing st with
  | zero => cases h
  | succ fuel ih =>
      rw [filter_loop] at h
      split at h
      · next hnone =>
          cases h
          rw [Peel.loop, dif_pos (stable_of_none_low hnone)]
      · rw [ih h, filter_round_rows, low_loop_round]

theorem filter_loop_mono {fuel more : Nat} (hle : fuel ≤ more) {st st' : Filtered U I K}
    (h : filter_loop min_user min_item fuel st = some st') :
    filter_loop min_user min_item more st = some st' := by
  induction fuel generalizing more st with
  | zero => cases h
  | succ fuel ih =>
      obtain ⟨more, rfl⟩ := Nat.exists_eq_add_of_le' hle
      rw [← Nat.add_assoc, filter_loop] at *
      split at h
      · next hnone => rw [if_pos hnone, h]
      · next hnone =>
          rw [if_neg hnone]
          exact ih (Nat.le_add_left fuel more) h

/-! ## The end of the loop -/

/-- No category falls below its minimum: a user category has it in the rows whose item has
enough, and an item category in the rows whose user has. -/
def Lasting (min_user min_item : Int) (table : Table U I K) : Prop :=
  (∀ user ∈ table.users.categories,
      min_user ≤ count_of (·.user) (enough (·.item) min_item table.rows) user) ∧
    ∀ item ∈ table.items.categories,
      min_item ≤ count_of (·.item) (enough (·.user) min_user table.rows) item

instance (table : Table U I K) : Decidable (Lasting min_user min_item table) :=
  inferInstanceAs (Decidable (_ ∧ _))

section Lasting

variable {table table' : Table U I K}

/-- Plain ids have no categories. -/
theorem lasting_of_plain (husers : table.users = .plain) (hitems : table.items = .plain) :
    Lasting min_user min_item table := by
  rw [Lasting, husers, hitems]
  exact ⟨fun _ h => absurd h List.not_mem_nil, fun _ h => absurd h List.not_mem_nil⟩

theorem lasting_of_not_positive (h : ¬ (0 < min_user ∨ 0 < min_item)) :
    Lasting min_user min_item table := by
  rw [not_or, not_lt, not_lt] at h
  exact ⟨fun _ _ => h.1.trans (Int.natCast_nonneg _), fun _ _ => h.2.trans (Int.natCast_nonneg _)⟩

theorem Lasting.perm (h : Lasting min_user min_item table) (husers : table'.users = table.users)
    (hitems : table'.items = table.items) (hrows : table'.rows.Perm table.rows) :
    Lasting min_user min_item table' := by
  rw [Lasting, husers, hitems]
  refine ⟨fun user huser => ?_, fun item hitem => ?_⟩
  · rw [count_of_perm _ (enough_perm hrows)]
    exact h.1 user huser
  · rw [count_of_perm _ (enough_perm hrows)]
    exact h.2 item hitem

theorem Lasting.no_low_users (h : Lasting min_user min_item table) {user : U}
    (huser : user ∈ table.users.categories) : low_users min_user table = [] :=
  low_keys_eq_nil table.users_hold huser fun user huser =>
    (h.1 user huser).trans (count_of_le _ enough_sublist.subperm user)

theorem Lasting.no_low_items (h : Lasting min_user min_item table) {item : I}
    (hitem : item ∈ table.items.categories) : low_items min_item table = [] :=
  low_keys_eq_nil table.items_hold hitem fun item hitem =>
    (h.2 item hitem).trans (count_of_le _ enough_sublist.subperm item)

/-- With no low user, a round drops the rows of the low items, and the other way round. -/
theorem filter_round_of_no_low_users (h : low_users min_user table = []) :
    (filter_round min_user min_item table).rows = enough (·.item) min_item table.rows := by
  rw [filter_round_rows, enough]
  refine List.filter_congr fun row hrow => ?_
  have huser : min_user ≤ count_of (·.user) table.rows row.user := by
    by_contra hcount
    have hlow := mem_low_users.mpr ⟨Or.inl ⟨row, hrow, rfl⟩, not_le.mp hcount⟩
    rw [h] at hlow
    cases hlow
  simp [not_low, huser]

theorem filter_round_of_no_low_items (h : low_items min_item table = []) :
    (filter_round min_user min_item table).rows = enough (·.user) min_user table.rows := by
  rw [filter_round_rows, enough]
  refine List.filter_congr fun row hrow => ?_
  have hitem : min_item ≤ count_of (·.item) table.rows row.item := by
    by_contra hcount
    have hlow := mem_low_items.mpr ⟨Or.inl ⟨row, hrow, rfl⟩, not_le.mp hcount⟩
    rw [h] at hlow
    cases hlow
  simp [not_low, hitem]

/-- Once no user is low, none becomes low: the items that are left keep their rows. -/
theorem Lasting.round (h : Lasting min_user min_item table) :
    Lasting min_user min_item (filter_round min_user min_item table) := by
  rw [Lasting, filter_round_users, filter_round_items]
  refine ⟨fun user huser => ?_, fun item hitem => ?_⟩
  · rw [filter_round_of_no_low_users (h.no_low_users huser), enough_enough]
    exact h.1 user huser
  · rw [filter_round_of_no_low_items (h.no_low_items hitem), enough_enough]
    exact h.2 item hitem

theorem lasting_of_round (h : Lasting min_user min_item (filter_round min_user min_item table)) :
    Lasting min_user min_item table := by
  rw [Lasting, filter_round_users, filter_round_items] at h
  have hsub : (filter_round min_user min_item table).rows.Sublist table.rows := by
    rw [filter_round_rows]
    exact List.filter_sublist
  exact ⟨fun user huser => (h.1 user huser).trans (count_of_le _ (enough_mono hsub).subperm user),
    fun item hitem => (h.2 item hitem).trans (count_of_le _ (enough_mono hsub).subperm item)⟩

theorem lasting_of_none_low
    (h : low_items min_item table = [] ∧ low_users min_user table = []) :
    Lasting min_user min_item table := by
  have hstable := stable_of_none_low h
  have hitems : enough (·.item) min_item table.rows = table.rows :=
    List.filter_eq_self.mpr fun row hrow => by
      simp [((low_eq_false row).mp (hstable row hrow)).2]
  have husers : enough (·.user) min_user table.rows = table.rows :=
    List.filter_eq_self.mpr fun row hrow => by
      simp [((low_eq_false row).mp (hstable row hrow)).1]
  rw [Lasting, hitems, husers]
  constructor
  · intro user huser
    by_contra hcount
    have hlow := mem_low_users.mpr ⟨Or.inr huser, not_le.mp hcount⟩
    rw [h.2] at hlow
    cases hlow
  · intro item hitem
    by_contra hcount
    have hlow := mem_low_items.mpr ⟨Or.inr hitem, not_le.mp hcount⟩
    rw [h.1] at hlow
    cases hlow

/-- A low key that is no category has a row to drop. -/
theorem Lasting.shrinks (h : Lasting min_user min_item table)
    (hlow : ¬ (low_items min_item table = [] ∧ low_users min_user table = [])) :
    (filter_round min_user min_item table).rows.length < table.rows.length := by
  have hstable : ¬ Peel.Stable (low min_user min_item) table.rows := by
    intro hstable
    refine hlow ⟨List.eq_nil_iff_forall_not_mem.mpr fun item hitem => ?_,
      List.eq_nil_iff_forall_not_mem.mpr fun user huser => ?_⟩
    · rcases mem_low_items.mp hitem with ⟨⟨row, hrow, rfl⟩ | hcategory, hcount⟩
      · exact absurd ((low_eq_false row).mp (hstable row hrow)).2 (not_le.mpr hcount)
      · rw [h.no_low_items hcategory] at hitem
        cases hitem
    · rcases mem_low_users.mp huser with ⟨⟨row, hrow, rfl⟩ | hcategory, hcount⟩
      · exact absurd ((low_eq_false row).mp (hstable row hrow)).1 (not_le.mpr hcount)
      · rw [h.no_low_users hcategory] at huser
        cases huser
  rw [filter_round_rows]
  exact (low_round min_user min_item).shrinks table.rows hstable

end Lasting

/-- The loop ends if and only if no category falls below its minimum. -/
theorem filter_loop_ends {st : Filtered U I K} (h : Lasting min_user min_item st.table) :
    ∃ fuel st', filter_loop min_user min_item fuel st = some st' := by
  induction hn : st.table.rows.length using Nat.strong_induction_on generalizing st with
  | _ n ih =>
      by_cases hlow : low_items min_item st.table = [] ∧ low_users min_user st.table = []
      · exact ⟨1, st, if_pos hlow⟩
      · subst hn
        let next : Filtered U I K := {
          table := filter_round min_user min_item st.table
          dropped_users := st.dropped_users ∪ (low_users min_user st.table).toFinset
          dropped_items := st.dropped_items ∪ (low_items min_item st.table).toFinset }
        have hround : Lasting min_user min_item next.table := h.round
        obtain ⟨fuel, st', hst'⟩ := ih _ (h.shrinks hlow) hround rfl
        exact ⟨fuel + 1, st', (if_neg hlow).trans hst'⟩

theorem lasting_of_filter_loop {fuel : Nat} {st st' : Filtered U I K}
    (h : filter_loop min_user min_item fuel st = some st') :
    Lasting min_user min_item st.table := by
  induction fuel generalizing st with
  | zero => cases h
  | succ fuel ih =>
      rw [filter_loop] at h
      split at h
      · next hnone => exact lasting_of_none_low hnone
      · exact lasting_of_round (ih h)

/-! ## The gate -/

/-- With enough fuel, `cold_start_mode="warn-and-skip"` returns this. -/
def Returns (min_user min_item : Int) (table kept : Table U I K) (warning : Option TooFew) :
    Prop :=
  ∃ needed, ∀ fuel ≥ needed,
    cold_start fuel .warn_and_skip min_user min_item table = some (.ok (kept, warning))

section Returns

variable {table kept : Table U I K} {warning : Option TooFew}

/-- Without a positive minimum no row is low. -/
theorem stable_of_not_positive (h : ¬ (0 < min_user ∨ 0 < min_item))
    (rows : List (Interaction U I K)) : Peel.Stable (low min_user min_item) rows := by
  rw [not_or, not_lt, not_lt] at h
  exact fun row _ => (low_eq_false row).mpr
    ⟨h.1.trans (Int.natCast_nonneg _), h.2.trans (Int.natCast_nonneg _)⟩

theorem exists_returns (h : Lasting min_user min_item table) :
    ∃ kept warning, Returns min_user min_item table kept warning := by
  by_cases hpos : 0 < min_user ∨ 0 < min_item
  · have hstart : Lasting min_user min_item ({ table } : Filtered U I K).table := h
    obtain ⟨needed, st', hst'⟩ := filter_loop_ends hstart
    refine ⟨st'.table, st'.warning, needed, fun fuel hfuel => ?_⟩
    rw [cold_start, if_pos hpos, filter_loop_mono hfuel hst', Option.map_some]
  · exact ⟨table, none, 0, fun fuel _ => by rw [cold_start, if_neg hpos]⟩

theorem Returns.lasting (h : Returns min_user min_item table kept warning) :
    Lasting min_user min_item table := by
  obtain ⟨needed, hneeded⟩ := h
  have hreturned := hneeded needed (Nat.le_refl needed)
  rw [cold_start] at hreturned
  split at hreturned
  · obtain ⟨st', hst', _⟩ := Option.map_eq_some_iff.mp hreturned
    exact lasting_of_filter_loop hst'
  · next hpos => exact lasting_of_not_positive hpos

theorem Returns.core (h : Returns min_user min_item table kept warning) :
    Core min_user min_item table.rows kept.rows := by
  refine core_of_greatest ?_
  have hgreatest := Peel.loop_greatest low_hereditary (low_round min_user min_item) table.rows
  obtain ⟨needed, hneeded⟩ := h
  have hreturned := hneeded needed (Nat.le_refl needed)
  rw [cold_start] at hreturned
  split at hreturned
  · obtain ⟨st', hst', heq⟩ := Option.map_eq_some_iff.mp hreturned
    obtain ⟨rfl, _⟩ := Prod.mk.inj (Except.ok.inj heq)
    rw [filter_loop_rows hst']
    exact hgreatest
  · next hpos =>
      obtain ⟨rfl, _⟩ := Prod.mk.inj (Except.ok.inj (Option.some.inj hreturned))
      rw [Peel.loop, dif_pos (stable_of_not_positive hpos _)] at hgreatest
      exact hgreatest

theorem Core.unique {rows kept kept' : List (Interaction U I K)}
    (h : Core min_user min_item rows kept) (h' : Core min_user min_item rows kept') :
    kept' = kept :=
  (h'.to_greatest.eq_loop (low_round _ _)).symm.trans (h.to_greatest.eq_loop _)

end Returns

/-- The filter returns the core of a table: the one greatest dense part, the same for rows in
another order and for either side first. -/
structure KeepsCore (min_user min_item : Int) (table kept : Table U I K)
    (warning : Option TooFew) : Prop where
  returns : Returns min_user min_item table kept warning
  core : Core min_user min_item table.rows kept.rows
  unique : ∀ kept', Core min_user min_item table.rows kept' → kept' = kept.rows
  reordered : ∀ table' : Table U I K, table'.users = table.users → table'.items = table.items →
    table'.rows.Perm table.rows →
      ∃ kept' warning', Returns min_user min_item table' kept' warning' ∧
        kept'.rows.Perm kept.rows
  sides : ∀ first, side_loop min_user min_item first table.rows = kept.rows

theorem Returns.keeps_core {table kept : Table U I K} {warning : Option TooFew}
    (h : Returns min_user min_item table kept warning) :
    KeepsCore min_user min_item table kept warning where
  returns := h
  core := h.core
  unique _ hcore := h.core.unique hcore
  reordered table' husers hitems hrows := by
    obtain ⟨kept', warning', hreturns⟩ := exists_returns (h.lasting.perm husers hitems hrows)
    exact ⟨kept', warning', hreturns, h.core.to_greatest.perm hreturns.core.to_greatest hrows⟩
  sides first := h.core.to_greatest.eq_loop (side_round_round _ _ first)

/-- `cold_start_mode="warn-and-skip"` returns the core of a table if and only if no category of
its id columns falls below its minimum. -/
theorem filter_core_iff (min_user min_item : Int) (table : Table U I K) :
    (∃ kept warning, KeepsCore min_user min_item table kept warning) ↔
      Lasting min_user min_item table := by
  constructor
  · rintro ⟨kept, warning, h⟩
    exact h.returns.lasting
  · intro h
    obtain ⟨kept, warning, hreturns⟩ := exists_returns h
    exact ⟨kept, warning, hreturns.keeps_core⟩

/-- Plain ids always have their core returned. -/
theorem filter_core (min_user min_item : Int) {table : Table U I K}
    (husers : table.users = .plain) (hitems : table.items = .plain) :
    ∃ kept warning, KeepsCore min_user min_item table kept warning := by
  obtain ⟨kept, warning, hreturns⟩ := exists_returns (lasting_of_plain husers hitems)
  exact ⟨kept, warning, hreturns.keeps_core⟩

/-- One event, its ids cast to categories. -/
def one_event : Frame String String ℚ where
  users := .categorical ["a"] (by decide)
  items := .categorical ["x"] (by decide)
  events := [{ user := some "a", item := some "x", value := none }]
  users_hold := by decide
  items_hold := by decide

/-- Asked for two rows of each user, the loop drops the event and then finds the user low again
and again. -/
theorem one_event_loops :
    (∀ fuel, cold_start fuel .warn_and_skip 2 0 (aggregate none one_event) = none) ∧
      ¬ ∃ kept warning, KeepsCore 2 0 (aggregate none one_event) kept warning := by
  have hfalls : ¬ Lasting 2 0 (aggregate none one_event) := by decide
  constructor
  · intro fuel
    rw [cold_start, if_pos (by decide), Option.map_eq_none_iff, Option.eq_none_iff_forall_ne_some]
    exact fun st' hst' => hfalls (lasting_of_filter_loop hst')
  · rintro ⟨kept, warning, h⟩
    exact hfalls h.returns.lasting

end EmergentFlow.Recommend
