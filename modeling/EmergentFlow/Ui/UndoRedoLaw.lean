import EmergentFlow.Ui.UndoRedo

/-!
# Ui — UndoRedoLaw

Undo and redo after any run of actions: what they lead to, what counts as one
step, and that redo leads to nothing but what was undone last.
-/

namespace EmergentFlow.Canvas

variable {Sub : Type} {host : Host Sub} {s s' : GraphStore Sub}

/-! ## The effect of an action -/

theorem guarded_ne {nothing : Prop} [Decidable nothing] {e : Effect} (hkept : e ≠ .kept)
    (hrecorded : e ≠ .recorded) : Effect.guarded nothing ≠ e := by
  rw [Effect.guarded]
  split
  · exact hkept.symm
  · exact hrecorded.symm

theorem move_effect_ne {id txn : String} {e : Effect} (hkept : e ≠ .kept)
    (hamended : e ≠ .amended) (hrecorded : e ≠ .recorded) : s.move_effect id txn ≠ e := by
  rw [GraphStore.move_effect]
  split
  · exact hkept.symm
  · split
    · exact hamended.symm
    · exact hrecorded.symm

/-- Only `undo` undoes, only `redo` redoes, and only `reset` clears. -/
theorem eq_of_effect {a : Action Sub} :
    (s.effect host a = .undone → a = .undo) ∧ (s.effect host a = .redone → a = .redo) ∧
      (s.effect host a = .cleared → a = .reset) := by
  have hguarded : ∀ (nothing : Prop) [Decidable nothing], Effect.guarded nothing ≠ .undone ∧
      Effect.guarded nothing ≠ .redone ∧ Effect.guarded nothing ≠ .cleared := by
    intro nothing _
    refine ⟨guarded_ne ?_ ?_, guarded_ne ?_ ?_, guarded_ne ?_ ?_⟩ <;> intro h <;> cases h
  have hmove : ∀ id txn, s.move_effect id txn ≠ .undone ∧ s.move_effect id txn ≠ .redone ∧
      s.move_effect id txn ≠ .cleared := by
    intro id txn
    refine ⟨move_effect_ne ?_ ?_ ?_, move_effect_ne ?_ ?_ ?_, move_effect_ne ?_ ?_ ?_⟩ <;>
      intro h <;> cases h
  have hne : s.effect host a ≠ .undone ∧ s.effect host a ≠ .redone ∧
      s.effect host a ≠ .cleared ∨ a = .undo ∨ a = .redo ∨ a = .reset := by
    cases a with
    | undo => exact .inr (.inl rfl)
    | redo => exact .inr (.inr (.inl rfl))
    | reset => exact .inr (.inr (.inr rfl))
    | moveNode id position => exact .inl (hmove _ _)
    | moveGroup id position => exact .inl (hmove _ _)
    | setGroupMeta groupId patch =>
        rw [GraphStore.effect]
        split <;> refine .inl ⟨?_, ?_, ?_⟩ <;> intro h <;> cases h
    | _ => first
      | exact .inl (hguarded _)
      | (refine .inl ⟨?_, ?_, ?_⟩ <;> intro h <;> cases h)
  rcases hne with ⟨hundone, hredone, hcleared⟩ | rfl | rfl | rfl
  · exact ⟨fun h => absurd h hundone, fun h => absurd h hredone, fun h => absurd h hcleared⟩
  · refine ⟨fun _ => rfl, ?_, ?_⟩ <;> intro h <;> cases h
  · refine ⟨?_, fun _ => rfl, ?_⟩ <;> intro h <;> cases h
  · refine ⟨?_, ?_, fun _ => rfl⟩ <;> intro h <;> cases h

theorem op_eq_undo {a : Action Sub} (h : s.op host a = .undo) : a = .undo := by
  rw [GraphStore.op] at h
  cases heffect : s.effect host a with
  | undone => exact eq_of_effect.1 heffect
  | _ =>
      rw [heffect] at h
      cases h

theorem op_keepsFuture {a : Action Sub} :
    (s.op host a).KeepsFuture ↔ s.effect host a ≠ .recorded ∧ s.effect host a ≠ .cleared := by
  rw [GraphStore.op]
  cases s.effect host a <;> simp [Effect.op, UndoHistory.Op.KeepsFuture]

/-! ## Undo and redo in turn -/

theorem GraphStore.Normal.undo (hs : s.Normal) : s.undo.Normal := by
  rw [GraphStore.Normal, view_undo hs.present]
  show UndoHistory.All _ (s.view.step HISTORY_LIMIT .undo)
  exact hs.step trivial

theorem GraphStore.Normal.redo (hs : s.Normal) : s.redo.Normal := by
  rw [GraphStore.Normal, view_redo hs.present]
  show UndoHistory.All _ (s.view.step HISTORY_LIMIT .redo)
  exact hs.step trivial

theorem view_undo_iterate (hs : s.Normal) (n : Nat) :
    (GraphStore.undo^[n] s).view = UndoHistory.undo^[n] s.view ∧
      (GraphStore.undo^[n] s).Normal := by
  induction n with
  | zero => exact ⟨rfl, hs⟩
  | succ n ih =>
      rw [Function.iterate_succ_apply', Function.iterate_succ_apply', view_undo ih.2.present, ih.1]
      exact ⟨rfl, ih.2.undo⟩

theorem view_redo_iterate (hs : s.Normal) (n : Nat) :
    (GraphStore.redo^[n] s).view = UndoHistory.redo^[n] s.view ∧
      (GraphStore.redo^[n] s).Normal := by
  induction n with
  | zero => exact ⟨rfl, hs⟩
  | succ n ih =>
      rw [Function.iterate_succ_apply', Function.iterate_succ_apply', view_redo ih.2.present, ih.1]
      exact ⟨rfl, ih.2.redo⟩

/-- Undoing and redoing as often leads to the versions there were. -/
theorem view_redo_undo_iterate (hs : s.Normal) {n : Nat} (hn : n ≤ s.past.length) :
    (GraphStore.redo^[n] (GraphStore.undo^[n] s)).view = s.view := by
  obtain ⟨hundo, hnormal⟩ := view_undo_iterate hs n
  rw [(view_redo_iterate hnormal n).1, hundo]
  exact UndoHistory.redo_undo_iterate hn

/-- One undo leads to the version pushed last. -/
theorem undo_of_push {m : CanvasModel Sub} {past : List (CanvasModel Sub)}
    (h : s.past = UndoHistory.push HISTORY_LIMIT past m) : s.undo.toCanvasModel = m := by
  obtain ⟨kept, hkept⟩ := UndoHistory.push_eq (show 0 < HISTORY_LIMIT by decide) past m
  rw [GraphStore.undo, h, hkept, List.getLast?_concat]

/-- What a recorded action leaves of the history. -/
theorem recorded_act (hs : s.toCanvasModel.Normal) {a : Action Sub}
    (h : s.effect host a = .recorded) :
    (act host s a).past = UndoHistory.push HISTORY_LIMIT s.past s.toCanvasModel ∧
      (act host s a).future = [] := by
  have hview := act_refines host hs a
  rw [GraphStore.op, h] at hview
  exact ⟨congrArg UndoHistory.past hview, congrArg UndoHistory.future hview⟩

/-- What is neither recorded nor an undo, a redo or a reset leaves it alone. -/
theorem amended_act (hs : s.toCanvasModel.Normal) {a : Action Sub}
    (h : s.effect host a = .amended) :
    (act host s a).past = s.past ∧ (act host s a).future = s.future := by
  have hview := act_refines host hs a
  rw [GraphStore.op, h] at hview
  exact ⟨congrArg UndoHistory.past hview, congrArg UndoHistory.future hview⟩

theorem of_guarded {nothing : Prop} [Decidable nothing]
    (h : Effect.guarded nothing = .kept) : nothing := by
  by_contra hnothing
  rw [Effect.guarded, if_neg hnothing] at h
  cases h

theorem kept_updateGraphParam {txn name : String} {g : ParamModel → ParamModel}
    (h : Effect.guarded (((s.params.getD .empty).get? name).isNone) = .kept) :
    s.updateGraphParam txn name g = s := by
  rw [GraphStore.updateGraphParam, Option.isNone_iff_eq_none.mp (of_guarded h)]

theorem kept_createResultCard {nodeIds : List String} {cardId : String}
    {portIds edgeIds : Nat → String}
    (h : s.effect host (.createResultCardForSelection nodeIds cardId portIds edgeIds) = .kept) :
    s.createResultCardForSelection host nodeIds cardId portIds edgeIds = s := by
  rw [GraphStore.createResultCardForSelection]
  cases hspec : host.catalog.find? (·.type = "reports.result_card") with
  | none => rfl
  | some spec =>
      have hnodes : s.cardNodes nodeIds = [] := (of_guarded h).resolve_left (by simp [hspec])
      exact if_pos hnodes

/-- An action without effect leaves the model. -/
theorem kept_act {a : Action Sub} (h : s.effect host a = .kept) :
    (act host s a).toCanvasModel = s.toCanvasModel := by
  cases a with
  | endNodeDrag => rfl
  | moveNode id position =>
      rw [GraphStore.effect, GraphStore.move_effect] at h
      split at h
      · rename_i hmissing
        exact congrArg _ (if_pos hmissing)
      · split at h <;> cases h
  | moveGroup id position =>
      rw [GraphStore.effect, GraphStore.move_effect] at h
      split at h
      · rename_i hmissing
        exact congrArg _ (if_pos hmissing)
      · split at h <;> cases h
  | setGroupMeta groupId patch =>
      rw [GraphStore.effect] at h
      split at h <;> cases h
  | createResultCardForSelection nodeIds cardId portIds edgeIds =>
      exact congrArg _ (kept_createResultCard h)
  | setGraphParamValue name value => exact congrArg _ (kept_updateGraphParam h)
  | setGraphParamType name typeToken => exact congrArg _ (kept_updateGraphParam h)
  | setGraphParamDescription name description => exact congrArg _ (kept_updateGraphParam h)
  | connect source target edgeId =>
      rw [act, GraphStore.connect, if_pos (of_guarded h)]
  | _ => first
    | exact congrArg _ (if_pos (of_guarded h))
    | cases h

/-! ## Drags -/

/-- What is dragged: a node, or a group with its members. -/
inductive Target where
  | node (id : String)
  | group (id : String)

def Target.id : Target → String
  | .node id | .group id => id

def Target.txn : Target → String
  | .node id => "move:" ++ id
  | .group id => "move-group:" ++ id

def Target.move : Target → Position → Action Sub
  | .node id => .moveNode id
  | .group id => .moveGroup id

/-- A drag of the target is under way. -/
def GraphStore.Dragging (s : GraphStore Sub) (t : Target) : Prop := s.lastTxn = some t.txn

instance (t : Target) : Decidable (s.Dragging t) := inferInstanceAs (Decidable (_ = _))

variable (host) in
theorem effect_move {t : Target} (h : (s.nodes.get? t.id).isSome) (p : Position) :
    s.effect host (t.move p) = if s.Dragging t then .amended else .recorded := by
  have hthere : ¬ (s.nodes.get? t.id).isNone := by
    rw [Option.isNone_iff_eq_none]
    exact Option.ne_none_iff_isSome.mpr h
  cases t with
  | node id => exact if_neg hthere
  | group id => exact if_neg hthere

theorem get?_movedGroup {id : String} (h : (s.nodes.get? id).isSome) (p : Position) :
    ((s.movedGroup id p).get? id).isSome := by
  obtain ⟨group, hgroup⟩ := Option.isSome_iff_exists.mp h
  rw [GraphStore.movedGroup, hgroup]
  simp [Dict.get?_set_self]

variable (host) in
/-- After a move the drag is under way, and the target is where it was. -/
theorem dragging_move {t : Target} (h : (s.nodes.get? t.id).isSome) (p : Position) :
    (act host s (t.move p)).Dragging t ∧ ((act host s (t.move p)).nodes.get? t.id).isSome := by
  have hthere : ¬ (s.nodes.get? t.id).isNone := by
    rw [Option.isNone_iff_eq_none]
    exact Option.ne_none_iff_isSome.mpr h
  cases t with
  | node id =>
      simp only [Target.move, act, GraphStore.moveNode, Target.id] at hthere h ⊢
      rw [if_neg hthere, GraphStore.Dragging, GraphStore.setModel]
      simp only [Target.txn, Dict.get?_modify, if_true, Option.isSome_map]
      by_cases htxn : s.lastTxn = some ("move:" ++ id)
      · simp only [if_pos htxn]
        exact ⟨htxn, h⟩
      · simp only [if_neg htxn]
        exact ⟨rfl, h⟩
  | group id =>
      simp only [Target.move, act, GraphStore.moveGroup, Target.id] at hthere h ⊢
      rw [if_neg hthere]
      refine ⟨rfl, get?_movedGroup ?_ p⟩
      by_cases htxn : s.lastTxn = some ("move-group:" ++ id)
      · rw [if_pos htxn]
        exact h
      · rw [if_neg htxn]
        exact h

variable (host) in
/-- However many moves a drag makes, they push the version before the first. -/
theorem drag_run (hs : s.Normal) {t : Target} (h : (s.nodes.get? t.id).isSome) (p : Position)
    (ps : List Position) :
    let s' := Runs.run (act host) s ((p :: ps).map t.move)
    s'.Normal ∧ s'.Dragging t ∧ (s'.nodes.get? t.id).isSome ∧
      s'.past = if s.Dragging t then s.past
        else UndoHistory.push HISTORY_LIMIT s.past s.toCanvasModel := by
  induction ps using List.reverseRecOn with
  | nil =>
      have hmove := dragging_move host h p
      refine ⟨hs.act _, hmove.1, hmove.2, ?_⟩
      have heffect := effect_move host h p
      by_cases hdrag : s.Dragging t
      · rw [if_pos hdrag] at heffect ⊢
        exact (amended_act hs.present heffect).1
      · rw [if_neg hdrag] at heffect ⊢
        exact (recorded_act hs.present heffect).1
  | append_singleton ps q ih =>
      obtain ⟨hnormal, hdrag, hthere, hpast⟩ := ih
      rw [← List.cons_append, List.map_append, List.map_singleton]
      simp only [Runs.run_concat]
      have hmove := dragging_move host hthere q
      have heffect := effect_move host hthere q
      rw [if_pos hdrag] at heffect
      exact ⟨hnormal.act _, hmove.1, hmove.2, (amended_act hnormal.present heffect).1.trans hpast⟩

/-! ## A transaction leaves nothing to redo -/

/-- While a transaction may go on there is nothing to redo. -/
def GraphStore.Settled (s : GraphStore Sub) : Prop := s.lastTxn.isSome → s.future = []

theorem settled_guarded (h : s.Settled) {txn : String} {f : CanvasModel Sub → CanvasModel Sub}
    {nothing : Prop} [Decidable nothing] :
    (if nothing then s else (s.pushHistory txn).setModel f).Settled := by
  split
  · exact h
  · exact fun _ => rfl

theorem settled_updateGraphParam (h : s.Settled) {txn name : String}
    {g : ParamModel → ParamModel} : (s.updateGraphParam txn name g).Settled := by
  rw [GraphStore.updateGraphParam]
  split
  · exact h
  · exact fun _ => rfl

theorem GraphStore.Settled.act (h : s.Settled) (a : Action Sub) :
    (Canvas.act host s a).Settled := by
  cases a with
  | moveNode id position =>
      rw [Canvas.act, GraphStore.moveNode]
      split
      · exact h
      · by_cases htxn : s.lastTxn = some ("move:" ++ id)
        · simp only [if_pos htxn]
          exact h
        · simp only [if_neg htxn]
          exact fun _ => rfl
  | moveGroup id position =>
      rw [Canvas.act, GraphStore.moveGroup]
      split
      · exact h
      · by_cases htxn : s.lastTxn = some ("move-group:" ++ id)
        · simp only [if_pos htxn]
          exact fun _ => h (by rw [htxn]; rfl)
        · simp only [if_neg htxn]
          exact fun _ => rfl
  | connect source target edgeId =>
      rw [Canvas.act, GraphStore.connect]
      split
      · exact h
      · exact fun _ => rfl
  | createResultCardForSelection nodeIds cardId portIds edgeIds =>
      rw [Canvas.act, GraphStore.createResultCardForSelection]
      split
      · exact h
      · split
        · exact h
        · exact fun _ => rfl
  | undo =>
      rw [Canvas.act, GraphStore.undo]
      split
      · exact h
      · intro hmove
        cases hmove
  | redo =>
      rw [Canvas.act, GraphStore.redo]
      split
      · exact h
      · intro hmove
        cases hmove
  | setGroupMeta groupId patch =>
      rw [Canvas.act, GraphStore.setGroupMeta]
      by_cases hpush : patch.label.isSome ∨ patch.color.isSome
      · simp only [if_pos hpush]
        exact fun _ => rfl
      · simp only [if_neg hpush]
        exact h
  | _ => first
    | exact settled_guarded h
    | exact settled_updateGraphParam h
    | exact fun _ => rfl
    | (intro hmove; cases hmove)

/-! ## The law -/

/-- An action that changes the model without a version of its own: another move
of the drag under way, when nothing can be redone, or a group put somewhere. -/
def Unrecorded (s : GraphStore Sub) (a : Action Sub) : Prop :=
  (∃ t p, a = Target.move t p ∧ s.Dragging t ∧ s.future = []) ∨
    ∃ groupId patch, a = .setGroupMeta groupId patch ∧ patch.label = none ∧ patch.color = none

theorem unrecorded_of_effect (hsettled : s.Settled) {a : Action Sub}
    (h : s.effect host a = .amended) : Unrecorded s a := by
  have hguarded : ∀ (nothing : Prop) [Decidable nothing], Effect.guarded nothing ≠ .amended :=
    fun _ _ => guarded_ne nofun nofun
  have hmove : ∀ t : Target, s.move_effect t.id t.txn = .amended →
      s.Dragging t ∧ s.future = [] := by
    intro t ht
    rw [GraphStore.move_effect] at ht
    split at ht
    · cases ht
    · split at ht
      · rename_i htxn
        exact ⟨htxn, hsettled (by rw [htxn]; rfl)⟩
      · cases ht
  cases a with
  | moveNode id p => exact .inl ⟨.node id, p, rfl, hmove (.node id) h⟩
  | moveGroup id p => exact .inl ⟨.group id, p, rfl, hmove (.group id) h⟩
  | setGroupMeta groupId patch =>
      rw [GraphStore.effect] at h
      split at h
      · cases h
      · rename_i hnone
        rw [not_or, Option.not_isSome_iff_eq_none, Option.not_isSome_iff_eq_none] at hnone
        exact .inr ⟨groupId, patch, rfl, hnone⟩
  | _ => first
    | cases h
    | exact absurd h (hguarded _)

/-- Undo and redo in the state that a run of actions leads to. -/
structure UndoRedoLaw (host : Host Sub) (l : List (Action Sub)) (s : GraphStore Sub) : Prop where
  bounded : s.past.length + s.future.length ≤ HISTORY_LIMIT
  restored : ∀ n ≤ s.past.length,
    (GraphStore.redo^[n] (GraphStore.undo^[n] s)).toCanvasModel = s.toCanvasModel
  undone : ∀ a, s.effect host a = .recorded →
    (act host s a).past = UndoHistory.push HISTORY_LIMIT s.past s.toCanvasModel ∧
      (act host s a).undo.toCanvasModel = s.toCanvasModel
  discarded : ∀ a, s.effect host a = .recorded →
    (act host s a).future = [] ∧ (act host s a).redo = act host s a
  changed : ∀ a, (act host s a).toCanvasModel ≠ s.toCanvasModel →
    s.effect host a = .recorded ∨ a = .undo ∨ a = .redo ∨ a = .reset ∨ Unrecorded s a
  dragged : ∀ (t : Target) (p : Position) (ps : List Position), (s.nodes.get? t.id).isSome →
    let s' := Runs.run (act host) s ((p :: ps).map t.move ++ [.endNodeDrag])
    s'.past = (if s.Dragging t then s.past
      else UndoHistory.push HISTORY_LIMIT s.past s.toCanvasModel) ∧
    (¬ s.Dragging t → s'.undo.toCanvasModel = s.toCanvasModel) ∧ ¬ s'.Dragging t
  carded : ∀ nodeIds cardId portIds edgeIds,
    let s' := s.createResultCardForSelection host nodeIds cardId portIds edgeIds
    s' = s ∨ s'.past = UndoHistory.push HISTORY_LIMIT s.past s.toCanvasModel ∧
      s'.undo.toCanvasModel = s.toCanvasModel
  redone : ∀ m ∈ s.future, ∃ pre post, l = pre ++ .undo :: post ∧
    (Runs.run (act host) .new pre).toCanvasModel = m ∧
    Runs.AllSteps (act host) (fun t a => t.effect host a ≠ .recorded ∧ t.effect host a ≠ .cleared)
      (act host (Runs.run (act host) .new pre) .undo) post

theorem undo_redo_law (host : Host Sub) (l : List (Action Sub)) :
    UndoRedoLaw host l (Runs.run (act host) .new l) := by
  have hnormal := normal_run host l
  have hsettled : (Runs.run (act host) .new l).Settled :=
    Runs.invariant (fun _ => rfl) (fun _ a h => h.act a) l
  generalize hs : Runs.run (act host) .new l = s at hnormal hsettled
  have hundone : ∀ a, s.effect host a = .recorded →
      (act host s a).past = UndoHistory.push HISTORY_LIMIT s.past s.toCanvasModel ∧
        (act host s a).undo.toCanvasModel = s.toCanvasModel := by
    intro a ha
    have hpast := (recorded_act hnormal.present ha).1
    exact ⟨hpast, undo_of_push hpast⟩
  -- the store refines the abstract undo history: the bound and the redo clause come from there
  have hrefines : UndoHistory.Refines HISTORY_LIMIT (act host) GraphStore.view
      (GraphStore.op host) GraphStore.Normal := fun _ a h => act_refines host h.present a
  have hstep : ∀ (s : GraphStore Sub) a, s.Normal → (act host s a).Normal := fun _ a h => h.act a
  refine {
    bounded := hs ▸ hrefines.bounded normal_new hstep (Nat.zero_le _) l
    restored := fun n hn => congrArg UndoHistory.present (view_redo_undo_iterate hnormal hn)
    undone := hundone, discarded := ?_, changed := ?_, dragged := ?_, carded := ?_, redone := ?_ }
  · intro a ha
    have hfuture := (recorded_act hnormal.present ha).2
    exact ⟨hfuture, by rw [GraphStore.redo, hfuture]; rfl⟩
  · intro a hchanged
    -- a change of the canvas is one of the effects that the action can have
    cases heffect : s.effect host a with
    | kept => exact absurd (kept_act heffect) hchanged
    | amended => exact .inr (.inr (.inr (.inr (unrecorded_of_effect hsettled heffect))))
    | recorded => exact .inl rfl
    | undone => exact .inr (.inl (eq_of_effect.1 heffect))
    | redone => exact .inr (.inr (.inl (eq_of_effect.2.1 heffect)))
    | cleared => exact .inr (.inr (.inr (.inl (eq_of_effect.2.2 heffect))))
  · intro t p ps hthere
    obtain ⟨-, -, -, hpast⟩ := drag_run host hnormal hthere p ps
    -- a drag records once, at its first move
    rw [Runs.run_concat]
    refine ⟨hpast, fun hdrag => ?_, ?_⟩
    · rw [if_neg hdrag] at hpast
      exact undo_of_push hpast
    · intro hdrag
      cases hdrag
  · intro nodeIds cardId portIds edgeIds
    let card : Action Sub := .createResultCardForSelection nodeIds cardId portIds edgeIds
    by_cases hkept : s.effect host card = .kept
    · exact .inl (kept_createResultCard hkept)
    · have hrecorded : s.effect host card = .recorded :=
        if_neg fun hnothing => hkept (if_pos hnothing)
      exact .inr (hundone card hrecorded)
  · intro m hm
    rw [← hs] at hm
    obtain ⟨pre, a, post, rfl, hundo, hpresent, hsteps⟩ :=
      hrefines.redoes normal_new hstep rfl hm
    obtain rfl := op_eq_undo hundo
    exact ⟨pre, post, rfl, hpresent, by simpa only [op_keepsFuture] using hsteps⟩

end EmergentFlow.Canvas
