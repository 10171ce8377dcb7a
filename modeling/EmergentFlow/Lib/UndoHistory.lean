import Mathlib.Logic.Function.Iterate
import EmergentFlow.Lib.Runs

/-!
# UndoHistory — a bounded linear history of edits

A document with the versions that can be undone, oldest first, and the versions
that can be redone, the next one last. Recording a new version keeps the present
one, at the cost of the oldest when the limit is reached, and drops what could be
redone. Amending changes the present version and keeps nothing.

A system refines such a history when each of its steps is one operation on it
(`Refines`); what redo leads back to is then a state it was undone from.
-/

structure UndoHistory (α : Type*) where
  past : List α
  present : α
  future : List α

namespace UndoHistory

variable {α σ ι : Type*} {limit : Nat} {h : UndoHistory α} {a : α}

/-! ## The operations -/

/-- A list with one more element, without its first when that is too many. -/
def push (limit : Nat) (l : List α) (a : α) : List α :=
  if limit < (l ++ [a]).length then (l ++ [a]).tail else l ++ [a]

def record (limit : Nat) (h : UndoHistory α) (a : α) : UndoHistory α :=
  ⟨push limit h.past h.present, a, []⟩

def amend (h : UndoHistory α) (a : α) : UndoHistory α := { h with present := a }

def undo (h : UndoHistory α) : UndoHistory α :=
  match h.past.getLast? with
  | none => h
  | some prev => ⟨h.past.dropLast, prev, h.future ++ [h.present]⟩

def redo (h : UndoHistory α) : UndoHistory α :=
  match h.future.getLast? with
  | none => h
  | some next => ⟨h.past ++ [h.present], next, h.future.dropLast⟩

/-- A document with no history. -/
def fresh (a : α) : UndoHistory α := ⟨[], a, []⟩

inductive Op (α : Type*) where
  | record (a : α)
  | amend (a : α)
  | undo
  | redo
  | fresh (a : α)

/-- The operation leaves what can be redone to redo. -/
def Op.KeepsFuture : Op α → Prop
  | .record _ | .fresh _ => False
  | _ => True

def step (limit : Nat) (h : UndoHistory α) : Op α → UndoHistory α
  | .record a => h.record limit a
  | .amend a => h.amend a
  | .undo => h.undo
  | .redo => h.redo
  | .fresh a => .fresh a

/-! ## Undo and redo -/

theorem undo_of_past (hpast : h.past ≠ []) : h.undo =
    ⟨h.past.dropLast, h.past.getLast hpast, h.future ++ [h.present]⟩ := by
  rw [undo, List.getLast?_eq_some_getLast hpast]

theorem redo_undo (hpast : h.past ≠ []) : h.undo.redo = h := by
  rw [undo_of_past hpast, redo, List.getLast?_concat, List.dropLast_concat]
  simp only [List.dropLast_concat_getLast]

theorem length_past_undo : h.undo.past.length = h.past.length - 1 := by
  by_cases hpast : h.past = []
  · simp [undo, hpast]
  · rw [undo_of_past hpast, List.length_dropLast]

/-- Undoing and then redoing as often leads back. -/
theorem redo_undo_iterate {n : Nat} (hn : n ≤ h.past.length) : redo^[n] (undo^[n] h) = h := by
  induction n generalizing h with
  | zero => rfl
  | succ n ih =>
      have hpast : h.past ≠ [] := List.ne_nil_of_length_pos (by omega)
      have hrest : n ≤ h.undo.past.length := by
        rw [length_past_undo]
        omega
      rw [Function.iterate_succ_apply' redo, Function.iterate_succ_apply undo, ih hrest,
        redo_undo hpast]

theorem push_eq (hlimit : 0 < limit) (l : List α) (a : α) :
    ∃ kept, push limit l a = kept ++ [a] := by
  rw [push]
  split
  · cases l with
    | nil =>
        rename_i hlong
        simp at hlong
        omega
    | cons b l => exact ⟨l, rfl⟩
  · exact ⟨l, rfl⟩

/-! ## The limit -/

/-- The versions kept are no more than the limit. -/
def Bounded (limit : Nat) (h : UndoHistory α) : Prop := h.past.length + h.future.length ≤ limit

theorem length_push_le {l : List α} (hl : l.length ≤ limit) : (push limit l a).length ≤ limit := by
  rw [push]
  split <;> simp_all

theorem Bounded.step (hb : Bounded limit h) (op : Op α) : Bounded limit (h.step limit op) := by
  unfold Bounded at hb ⊢
  cases op with
  | record a =>
      have hpast : h.past.length ≤ limit := by omega
      simpa [UndoHistory.step, record] using length_push_le hpast
  | amend a => exact hb
  | undo =>
      by_cases hpast : h.past = []
      · simpa [UndoHistory.step, undo, hpast] using hb
      · have hpos := List.length_pos_iff.mpr hpast
        simp only [UndoHistory.step, undo_of_past hpast, List.length_dropLast, List.length_append,
          List.length_singleton]
        omega
  | redo =>
      simp only [UndoHistory.step, redo]
      cases hfuture : h.future.getLast? with
      | none => exact hb
      | some next =>
          have hpos := List.length_pos_of_mem (List.mem_of_getLast? hfuture)
          simp only [List.length_dropLast, List.length_append, List.length_singleton]
          omega
  | fresh a => exact Nat.zero_le _

/-! ## Properties of all versions -/

/-- Every version has the property, the present one and those kept. -/
structure All (P : α → Prop) (h : UndoHistory α) : Prop where
  past : ∀ a ∈ h.past, P a
  present : P h.present
  future : ∀ a ∈ h.future, P a

/-- The version that the operation brings has the property. -/
def Op.Brings (P : α → Prop) : Op α → Prop
  | .record a | .amend a | .fresh a => P a
  | .undo | .redo => True

theorem mem_of_mem_push {l : List α} {b : α} (hb : b ∈ push limit l a) : b ∈ l ∨ b = a := by
  rw [push] at hb
  have hmem : b ∈ l ++ [a] := by
    split at hb
    · exact List.mem_of_mem_tail hb
    · exact hb
  simpa using hmem

theorem All.step {P : α → Prop} (hall : All P h) {op : Op α} (hop : op.Brings P) :
    All P (h.step limit op) := by
  cases op with
  | record a =>
      refine ⟨fun b hb => ?_, hop, nofun⟩
      rcases mem_of_mem_push hb with hb | rfl
      · exact hall.past b hb
      · exact hall.present
  | amend a => exact ⟨hall.past, hop, hall.future⟩
  | fresh a => exact ⟨nofun, hop, nofun⟩
  | undo =>
      rw [UndoHistory.step, undo]
      cases hlast : h.past.getLast? with
      | none => exact hall
      | some prev =>
          refine ⟨fun b hb => hall.past b (List.dropLast_subset _ hb),
            hall.past prev (List.mem_of_getLast? hlast), fun b hb => ?_⟩
          rcases List.mem_append.mp hb with hb | hb
          · exact hall.future b hb
          · rw [List.mem_singleton.mp hb]
            exact hall.present
  | redo =>
      rw [UndoHistory.step, redo]
      cases hlast : h.future.getLast? with
      | none => exact hall
      | some next =>
          refine ⟨fun b hb => ?_, hall.future next (List.mem_of_getLast? hlast),
            fun b hb => hall.future b (List.dropLast_subset _ hb)⟩
          rcases List.mem_append.mp hb with hb | hb
          · exact hall.past b hb
          · rw [List.mem_singleton.mp hb]
            exact hall.present

/-! ## Systems with a history -/

section Refinement

variable {next : σ → ι → σ} {view : σ → UndoHistory α} {op : σ → ι → Op α} {s : σ}

/-- Every step of the system is an operation on its history. -/
def Refines (limit : Nat) (next : σ → ι → σ) (view : σ → UndoHistory α) (op : σ → ι → Op α)
    (Inv : σ → Prop) : Prop :=
  ∀ s i, Inv s → view (next s i) = (view s).step limit (op s i)

theorem mem_future_step {b : α} {o : Op α} (hb : b ∈ (h.step limit o).future) :
    o.KeepsFuture ∧ (b ∈ h.future ∨ o = .undo ∧ b = h.present) := by
  cases o with
  | record a => cases hb
  | fresh a => cases hb
  | amend a => exact ⟨trivial, .inl hb⟩
  | undo =>
      by_cases hpast : h.past = []
      · simp only [step, undo, hpast, List.getLast?_nil] at hb
        exact ⟨trivial, .inl hb⟩
      · rw [step, undo_of_past hpast] at hb
        rcases List.mem_append.mp hb with hb | hb
        · exact ⟨trivial, .inl hb⟩
        · exact ⟨trivial, .inr ⟨rfl, List.mem_singleton.mp hb⟩⟩
  | redo =>
      simp only [step, redo] at hb
      cases hfuture : h.future.getLast? with
      | none =>
          rw [hfuture] at hb
          exact ⟨trivial, .inl hb⟩
      | some last =>
          rw [hfuture] at hb
          exact ⟨trivial, .inl (List.dropLast_subset _ hb)⟩

/-- The versions kept stay within the limit. -/
theorem Refines.bounded {Inv : σ → Prop} (hr : Refines limit next view op Inv) (hstart : Inv s)
    (hinv : ∀ s i, Inv s → Inv (next s i)) (hfresh : (view s).Bounded limit) (l : List ι) :
    (view (Runs.run next s l)).Bounded limit := by
  induction l using List.reverseRecOn with
  | nil => exact hfresh
  | append_singleton l i ih =>
      rw [Runs.run_concat, hr _ _ (Runs.invariant hstart hinv l)]
      exact ih.step _

/-- What can be redone was present when it was undone, and since then nothing
was recorded. -/
theorem Refines.redoes {Inv : σ → Prop} (hr : Refines limit next view op Inv)
    (hstart : Inv s) (hinv : ∀ s i, Inv s → Inv (next s i)) (hfresh : (view s).future = [])
    {l : List ι} {b : α} (hb : b ∈ (view (Runs.run next s l)).future) :
    ∃ pre i post, l = pre ++ i :: post ∧ op (Runs.run next s pre) i = .undo ∧
      (view (Runs.run next s pre)).present = b ∧
      Runs.AllSteps next (fun t j => (op t j).KeepsFuture) (next (Runs.run next s pre) i) post := by
  induction l using List.reverseRecOn with
  | nil =>
      rw [Runs.run_nil, hfresh] at hb
      cases hb
  | append_singleton l i ih =>
      rw [Runs.run_concat, hr _ _ (Runs.invariant hstart hinv l)] at hb
      obtain ⟨hkeeps, hb | ⟨hundo, rfl⟩⟩ := mem_future_step hb
      · obtain ⟨pre, j, post, rfl, hundo, hpresent, hsteps⟩ := ih hb
        refine ⟨pre, j, post ++ [i], by simp, hundo, hpresent, ?_⟩
        refine Runs.AllSteps.concat_iff.mpr ⟨hsteps, ?_⟩
        have hrun : Runs.run next (next (Runs.run next s pre) j) post =
            Runs.run next s (pre ++ j :: post) := by
          rw [Runs.run_append]
          rfl
        rw [hrun]
        exact hkeeps
      · exact ⟨l, i, [], rfl, hundo, rfl, Runs.AllSteps.nil⟩

end Refinement

end UndoHistory
