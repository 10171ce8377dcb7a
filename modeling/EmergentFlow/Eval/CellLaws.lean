import EmergentFlow.Eval.Cells

/-!
# Eval — CellLaws

Which row of the result table a label or a score belongs to. The table keeps
the provider and the model of a variant and none of its settings, and the
key joins the two into one string, so a label is for one cell exactly when
these strings tell the variants apart.
-/

namespace EmergentFlow

open Transaction

variable {σ ε Message : Type} {render_prompt : Dict String Json → Except ε (List Message)}
  {call : List Message → Variant → Transaction σ ε LLMResponse}

/-! ## The cells of a run -/

/-- A cell: a row of the data set under the variant at a place of the list. -/
structure Cell where
  row_id : Nat
  place : Nat
  variant : Variant

/-- The cells of a run, in the order of its rows. -/
def cells (dataset : List (Dict String Json)) (variants : List Variant) : List Cell :=
  (List.range dataset.length).flatMap fun row_id =>
    variants.zipIdx.map fun v => ⟨row_id, v.2, v.1⟩

def Variant.name (v : Variant) : String := variant_name v.provider v.model

/-- The key of the row that a cell gets. -/
def Cell.key (c : Cell) : Int × String := (c.row_id, c.variant.name)

theorem run_row_keys {row_id : Nat} {row : Dict String Json} {messages : List Message}
    {variants : List Variant} {s s' : σ} {rows : List (ResultRow Message)}
    (h : run_row call row_id row messages variants s = (.ok rows, s')) :
    rows.map ResultRow.key = variants.map fun v => ((row_id : Int), v.name) := by
  induction variants generalizing s rows with
  | nil =>
      cases h
      rfl
  | cons variant variants ih =>
      rw [run_row, bind_eq_ok] at h
      obtain ⟨response, t, -, h⟩ := h
      obtain ⟨rest, u, hrest, h⟩ := bind_eq_ok.mp h
      cases h
      rw [List.map_cons, ih hrest]
      rfl

theorem run_rows_keys {variants : List Variant} {row_id : Nat} {dataset : List (Dict String Json)}
    {s s' : σ} {rows : List (ResultRow Message)}
    (h : run_rows render_prompt call variants row_id dataset s = (.ok rows, s')) :
    rows.map ResultRow.key = (List.range' row_id dataset.length).flatMap fun i : Nat =>
      variants.map fun v => ((i : Int), v.name) := by
  induction dataset generalizing s row_id rows with
  | nil =>
      cases h
      rfl
  | cons row dataset ih =>
      rw [run_rows, bind_eq_ok] at h
      obtain ⟨messages, t, -, h⟩ := h
      obtain ⟨first, u, hfirst, h⟩ := bind_eq_ok.mp h
      obtain ⟨rest, v, hrest, h⟩ := bind_eq_ok.mp h
      cases h
      rw [List.map_append, run_row_keys hfirst, ih hrest]
      rfl

theorem keys_cells (dataset : List (Dict String Json)) (variants : List Variant) :
    (cells dataset variants).map Cell.key = (List.range dataset.length).flatMap fun i : Nat =>
      variants.map fun v => ((i : Int), v.name) := by
  rw [cells, List.map_flatMap]
  congr 1
  funext i
  rw [List.map_map]
  have hcell : (Cell.key ∘ fun v : Variant × Nat => (⟨i, v.2, v.1⟩ : Cell)) =
      (fun v : Variant => ((i : Int), v.name)) ∘ Prod.fst := rfl
  rw [hcell, ← List.map_map, List.zipIdx_map_fst]

/-- Each row of the table is that of its cell. -/
theorem eval_run_keys {dataset : List (Dict String Json)} {variants : List Variant} {s s' : σ}
    {results : List (ResultRow Message)}
    (h : eval_run render_prompt call dataset variants s = (.ok results, s')) :
    results.map ResultRow.key = (cells dataset variants).map Cell.key := by
  rw [keys_cells, List.range_eq_range']
  exact run_rows_keys h

theorem nodup_keys_cells (dataset : List (Dict String Json)) (variants : List Variant) :
    ((cells dataset variants).map Cell.key).Nodup ↔
      dataset = [] ∨ (variants.map Variant.name).Nodup := by
  have hrow : ∀ i : Nat, (variants.map fun v => ((i : Int), v.name)).Nodup ↔
      (variants.map Variant.name).Nodup := by
    intro i
    have hmap : (variants.map fun v => ((i : Int), v.name)) =
        (variants.map Variant.name).map (Prod.mk (i : Int)) := by
      rw [List.map_map]
      rfl
    rw [hmap, List.nodup_map_iff (Prod.mk_right_injective _)]
  rw [keys_cells, List.nodup_flatMap]
  constructor
  · rintro ⟨hrows, -⟩
    cases dataset with
    | nil => exact .inl rfl
    | cons row dataset =>
        right
        exact (hrow 0).mp (hrows 0 (List.mem_range.mpr (Nat.succ_pos _)))
  · rintro (rfl | hnames)
    · exact ⟨fun i hi => (nomatch hi), .nil⟩
    · refine ⟨fun i _ => (hrow i).mpr hnames, ?_⟩
      refine List.nodup_range.imp fun {i j} hij => ?_
      intro key hi hj
      obtain ⟨_, -, rfl⟩ := List.mem_map.mp hi
      obtain ⟨_, -, heq⟩ := List.mem_map.mp hj
      exact hij (Int.ofNat.inj (congrArg Prod.fst heq).symm)

theorem variant_of_cell {dataset : List (Dict String Json)} {variants : List Variant} {c : Cell}
    (h : c ∈ cells dataset variants) : variants[c.place]? = some c.variant := by
  obtain ⟨i, -, hc⟩ := List.mem_flatMap.mp h
  obtain ⟨⟨v, k⟩, hv, rfl⟩ := List.mem_map.mp hc
  exact List.mem_zipIdx_iff_getElem?.mp hv

/-! ## The laws -/

/-- The cells at these places of a table are all of one variant. -/
def OneVariant (cells : List Cell) (places : List Nat) : Prop :=
  ∀ i ∈ places, ∀ j ∈ places, ∀ c d, cells[i]? = some c → cells[j]? = some d → c.place = d.place

/-- What labels and summaries promise of the table of a run. -/
structure LabelsReachCells (cells : List Cell) (results : List (ResultRow Message)) : Prop where
  /-- A key is that of one row. -/
  identified : (results.map ResultRow.key).Nodup
  /-- Every row is in the join once, and no label row is attached twice. -/
  attached : ∀ labels joined, eval_label results labels = .ok joined →
    joined.map Prod.fst = results ∧ (joined.filterMap Prod.snd).Nodup
  /-- A label row is attached to the rows that have its key. -/
  matched : ∀ labels joined, eval_label results labels = .ok joined → ∀ row label,
    (row, some label) ∈ joined ↔ row ∈ results ∧ label ∈ labels.filled ∧ label.key = row.key
  /-- Every mean is over cells of one variant. -/
  averaged : ∀ mean scored summaries, scored.rows = results →
    summarize_scores mean scored = some summaries → ∀ summary ∈ summaries,
      ∃ places, OneVariant cells places ∧
        summary = score_summary mean scored.scores (summary.variant, places)

theorem LabelTable.map_key_filled (labels : LabelTable) :
    labels.filled.map LabelRow.key = labels.rows.map LabelRow.key := by
  rw [LabelTable.filled, List.map_map]
  rfl

/-- A label table that is accepted labels every key once. -/
theorem eval_label_eq_ok {results : List (ResultRow Message)} {labels : LabelTable}
    {joined : List (ResultRow Message × Option LabelRow)}
    (h : eval_label results labels = .ok joined) :
    (labels.filled.map LabelRow.key).Nodup ∧
      joined = Join.left ResultRow.key LabelRow.key results labels.filled := by
  rw [labels.map_key_filled]
  simp only [eval_label] at h
  split at h
  · cases h
  · split at h
    · cases h
    · rename_i hnodup
      cases h
      exact ⟨not_not.mp hnodup, rfl⟩

/-- Distinct names tell the cells of a group apart. -/
theorem oneVariant_of_mem_groups {dataset : List (Dict String Json)} {variants : List Variant}
    {results : List (ResultRow Message)}
    (hkeys : results.map ResultRow.key = (cells dataset variants).map Cell.key)
    (hnames : (variants.map Variant.name).Nodup) {g : String × List Nat}
    (hg : g ∈ score_groups results) : OneVariant (cells dataset variants) g.2 := by
  have hname : ∀ i ∈ g.2, ∀ c, (cells dataset variants)[i]? = some c → c.variant.name = g.1 := by
    intro i hi c hc
    have hrow := Join.key_of_mem_groups hg hi
    have hkey := congrArg (fun l => (l[i]?).map Prod.snd) hkeys
    simp only [List.getElem?_map, Option.map_map] at hkey
    rw [hc] at hkey
    exact Option.some.inj (hkey.symm.trans hrow)
  have hplace : ∀ i ∈ g.2, ∀ c, (cells dataset variants)[i]? = some c →
      (variants.map Variant.name)[c.place]? = some g.1 := by
    intro i hi c hc
    rw [List.getElem?_map, variant_of_cell (List.mem_of_getElem? hc), Option.map_some,
      hname i hi c hc]
  intro i hi j hj c d hc hd
  have hci := hplace i hi c hc
  have hdj := hplace j hj d hd
  have hlt : c.place < (variants.map Variant.name).length :=
    (List.getElem?_eq_some_iff.mp hci).1
  exact (List.getElem?_inj hlt hnames).mp (hci.trans hdj.symm)

/-- Labels reach their cells exactly when the names of the variants are
distinct, unless there is no cell. -/
theorem labels_reach_cells_iff {dataset : List (Dict String Json)} {variants : List Variant}
    {s s' : σ} {results : List (ResultRow Message)}
    (h : eval_run render_prompt call dataset variants s = (.ok results, s')) :
    LabelsReachCells (cells dataset variants) results ↔
      dataset = [] ∨ (variants.map Variant.name).Nodup := by
  have hkeys := eval_run_keys h
  rw [← nodup_keys_cells, ← hkeys]
  refine ⟨LabelsReachCells.identified, fun hnodup => ⟨hnodup, ?_, ?_, ?_⟩⟩
  · intro labels joined hjoined
    obtain ⟨hlabels, rfl⟩ := eval_label_eq_ok hjoined
    exact ⟨Join.map_fst_left hlabels, Join.nodup_filterMap_snd hnodup hlabels⟩
  · intro labels joined hjoined row label
    rw [(eval_label_eq_ok hjoined).2]
    exact Join.mem_left
  · rintro mean scored summaries rfl hsummaries summary hsummary
    rw [summarize_scores] at hsummaries
    split at hsummaries
    · cases hsummaries
    cases hsummaries
    obtain ⟨g, hg, rfl⟩ := List.mem_map.mp hsummary
    refine ⟨g.2, ?_, rfl⟩
    rw [hkeys, nodup_keys_cells] at hnodup
    rcases hnodup with rfl | hnames
    · intro i _ j _ c _ hc
      cases hc
    · exact oneVariant_of_mem_groups hkeys hnames hg

/-! ## Two runs -/

/-- A client that answers `"yes"`. -/
def answers_yes (_ : List String) (_ : Variant) : Transaction Unit Unit LLMResponse :=
  pure ⟨some "yes", .null, 1, 1, .finite 0, .finite 0, "stop"⟩

/-- A run of one row under variants, without a prompt. -/
def run_yes (variants : List Variant) : Transaction Unit Unit (List (ResultRow String)) :=
  eval_run (fun _ => .ok []) answers_yes [Dict.empty] variants

/-- Two models of one provider. -/
theorem two_models_labelled : ∃ results,
    (run_yes [⟨"anthropic", "sonnet", Dict.empty⟩, ⟨"anthropic", "haiku", Dict.empty⟩] ()).1 =
      .ok results ∧
    LabelsReachCells (cells [Dict.empty]
      [⟨"anthropic", "sonnet", Dict.empty⟩, ⟨"anthropic", "haiku", Dict.empty⟩]) results :=
  ⟨_, rfl, (labels_reach_cells_iff (show eval_run (fun _ => .ok []) answers_yes _ _ () = (.ok _, ())
    from rfl)).mpr (.inr (by decide))⟩

/-- One model at two temperatures. -/
def two_temperatures : List Variant :=
  [⟨"anthropic", "sonnet", Dict.ofList [("temperature", .int 0)]⟩,
    ⟨"anthropic", "sonnet", Dict.ofList [("temperature", .int 1)]⟩]

/-- Both cells of the row have one key. -/
theorem two_temperatures_share_key : ∃ results, (run_yes two_temperatures ()).1 = .ok results ∧
    ¬ LabelsReachCells (cells [Dict.empty] two_temperatures) results := by
  refine ⟨_, rfl, fun h => ?_⟩
  have hnodup := h.identified
  revert hnodup
  decide

end EmergentFlow
