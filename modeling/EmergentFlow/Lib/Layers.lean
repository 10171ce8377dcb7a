import EmergentFlow.Lib.Closure
import Mathlib.Data.Nat.Basic
import Mathlib.Data.List.Perm.Subperm
import Mathlib.Logic.Function.Basic
import Mathlib.Logic.Function.Iterate
import Mathlib.Order.Bounds.Defs

/-!
# Layers — the layers of a graph, by passes over its edges

An edge whose end is not past its start pushes the end one past it. A pass tries the
edges in order, and passes are made until one changes nothing or a number of them is
used up. A layer is at all times the length of a walk that ends there
(`walk_passes`), and `n` passes are past all walks of `n` edges (`le_passes`).
Without cycles no walk is longer than there are nodes, so as many passes give
every node the length of the longest walk to it (`settle_greatest`).
-/

namespace Layers

open Relation

variable {α : Type} [DecidableEq α]

def push (layer : α → Nat) (e : α × α) : α → Nat :=
  if layer e.2 < layer e.1 + 1 then Function.update layer e.2 (layer e.1 + 1) else layer

def pass (edges : List (α × α)) (layer : α → Nat) : α → Nat := edges.foldl push layer

/-- A push, and whether one has changed anything so far. -/
def pushMark (st : (α → Nat) × Bool) (e : α × α) : (α → Nat) × Bool :=
  if st.1 e.2 < st.1 e.1 + 1 then (Function.update st.1 e.2 (st.1 e.1 + 1), true) else st

/-- At most `n` passes, none after one that changes nothing. -/
def settle (edges : List (α × α)) : Nat → (α → Nat) → α → Nat
  | 0, layer => layer
  | n + 1, layer =>
      let st := edges.foldl pushMark (layer, false)
      if st.2 then settle edges n st.1 else st.1

/-- `n` edges one after the other, the last of which ends at the node. -/
inductive Walk (edges : List (α × α)) : Nat → α → Prop
  | nil (v : α) : Walk edges 0 v
  | snoc {n : Nat} {u v : α} : Walk edges n u → (u, v) ∈ edges → Walk edges (n + 1) v

/-! ## One pass -/

theorem le_push (layer : α → Nat) (e : α × α) (v : α) : layer v ≤ push layer e v := by
  rw [push]
  split
  next hlt =>
    by_cases hv : v = e.2
    · subst hv
      rw [Function.update_self]
      omega
    · rw [Function.update_of_ne hv]
  next => exact le_rfl

theorem push_end (layer : α → Nat) (e : α × α) : layer e.1 + 1 ≤ push layer e e.2 := by
  rw [push]
  split
  next => rw [Function.update_self]
  next hlt => omega

theorem le_pass (edges : List (α × α)) (layer : α → Nat) (v : α) : layer v ≤ pass edges layer v := by
  induction edges generalizing layer with
  | nil => exact le_rfl
  | cons e edges ih => exact le_trans (le_push layer e v) (ih (push layer e))

/-- A pass tries every edge. -/
theorem pass_end {edges : List (α × α)} (layer : α → Nat) {e : α × α} (he : e ∈ edges) :
    layer e.1 + 1 ≤ pass edges layer e.2 := by
  induction edges generalizing layer with
  | nil => cases he
  | cons first edges ih =>
      rcases List.mem_cons.mp he with rfl | he
      · exact le_trans (push_end layer e) (le_pass edges _ _)
      · have hfirst := le_push layer first e.1
        have hrest := ih (push layer first) he
        show layer e.1 + 1 ≤ pass edges (push layer first) e.2
        omega

/-- Layers stay lengths of walks. -/
theorem walk_pass {edges : List (α × α)} {layer : α → Nat} (h : ∀ v, Walk edges (layer v) v)
    (v : α) : Walk edges (pass edges layer v) v := by
  have hsub : ∀ (tried : List (α × α)) (layer : α → Nat), (∀ e ∈ tried, e ∈ edges) →
      (∀ v, Walk edges (layer v) v) → ∀ v, Walk edges (pass tried layer v) v := by
    intro tried
    induction tried with
    | nil => exact fun _ _ h => h
    | cons e tried ih =>
        intro layer htried h
        apply ih (push layer e) fun e' he' => htried e' (List.mem_cons_of_mem _ he')
        intro v
        rw [push]
        split
        next =>
          by_cases hv : v = e.2
          · subst hv
            rw [Function.update_self]
            exact (h e.1).snoc (htried e List.mem_cons_self)
          · rw [Function.update_of_ne hv]
            exact h v
        next => exact h v
  exact hsub edges layer (fun _ he => he) h v

/-! ## All passes -/

theorem walk_passes {edges : List (α × α)} (n : Nat) (v : α) :
    Walk edges ((pass edges)^[n] (fun _ => 0) v) v := by
  induction n generalizing v with
  | zero => exact .nil v
  | succ n ih =>
      rw [Function.iterate_succ_apply']
      exact walk_pass ih v

theorem le_passes {edges : List (α × α)} {k n : Nat} {v : α} (h : Walk edges k v) (hk : k ≤ n) :
    k ≤ (pass edges)^[n] (fun _ => 0) v := by
  induction h generalizing n with
  | nil v => exact Nat.zero_le _
  | @snoc k u v _ hedge ih =>
      obtain ⟨n, rfl⟩ := Nat.exists_eq_succ_of_ne_zero (show n ≠ 0 by omega)
      rw [Function.iterate_succ_apply']
      have hbefore := ih (Nat.le_of_succ_le_succ hk)
      have hpast : (pass edges)^[n] (fun _ => 0) u + 1 ≤ _ := pass_end _ hedge
      exact le_trans (Nat.succ_le_succ hbefore) hpast

/-- The mark says whether the layers changed. -/
theorem foldl_pushMark (edges : List (α × α)) (layer : α → Nat) (changed : Bool) :
    (edges.foldl pushMark (layer, changed)).1 = pass edges layer ∧
      ((edges.foldl pushMark (layer, changed)).2 = false → changed = false ∧
        pass edges layer = layer) := by
  induction edges generalizing layer changed with
  | nil => exact ⟨rfl, fun h => ⟨h, rfl⟩⟩
  | cons e edges ih =>
      rw [List.foldl_cons]
      by_cases hlt : layer e.2 < layer e.1 + 1
      · have hmark : pushMark (layer, changed) e = (push layer e, true) := by
          rw [pushMark, push, if_pos hlt, if_pos hlt]
        rw [hmark]
        exact ⟨(ih _ _).1, fun h => nomatch ((ih _ _).2 h).1⟩
      · have hmark : pushMark (layer, changed) e = (layer, changed) := by
          rw [pushMark, if_neg hlt]
        have hpush : push layer e = layer := by rw [push, if_neg hlt]
        have hpass : pass (e :: edges) layer = pass edges layer := by
          rw [pass, List.foldl_cons, hpush, pass]
        rw [hmark, hpass]
        exact ih layer changed

/-- Passes left out would have changed nothing. -/
theorem settle_eq (edges : List (α × α)) (n : Nat) (layer : α → Nat) :
    settle edges n layer = (pass edges)^[n] layer := by
  induction n generalizing layer with
  | zero => rfl
  | succ n ih =>
      obtain ⟨hpass, hmark⟩ := foldl_pushMark edges layer false
      rw [settle, hpass, Function.iterate_succ_apply]
      cases hchanged : (edges.foldl pushMark (layer, false)).2 with
      | true => exact ih _
      | false =>
          have hfixed := (hmark hchanged).2
          rw [hfixed, Function.iterate_fixed hfixed]
          rfl

/-! ## Without cycles -/

variable {nodes : List α} {edges : List (α × α)}

omit [DecidableEq α] in
/-- The nodes before the end of a walk. -/
theorem Walk.exists_trail (hnodes : ∀ e ∈ edges, e.1 ∈ nodes) {n : Nat} {v : α}
    (h : Walk edges n v) :
    ∃ trail : List α, trail.length = n ∧ (∀ u ∈ trail, u ∈ nodes) ∧
      (v :: trail).Pairwise fun a b => TransGen (fun a b => (a, b) ∈ edges) b a := by
  induction h with
  | nil v => exact ⟨[], rfl, nofun, List.pairwise_singleton _ v⟩
  | @snoc n u v _ hedge ih =>
      obtain ⟨trail, hlength, hmem, hpairs⟩ := ih
      refine ⟨u :: trail, by simp [hlength], ?_, ?_⟩
      · exact List.forall_mem_cons.mpr ⟨hnodes _ hedge, hmem⟩
      · refine List.pairwise_cons.mpr ⟨List.forall_mem_cons.mpr ⟨.single hedge, ?_⟩, hpairs⟩
        exact fun w hw => ((List.pairwise_cons.mp hpairs).1 w hw).tail hedge

omit [DecidableEq α] in
theorem Walk.le_length (hacyclic : Closure.Acyclic fun a b => (a, b) ∈ edges)
    (hnodes : ∀ e ∈ edges, e.1 ∈ nodes) {n : Nat} {v : α} (h : Walk edges n v) :
    n ≤ nodes.length := by
  obtain ⟨trail, rfl, hmem, hpairs⟩ := h.exists_trail hnodes
  have hnodup : trail.Nodup := by
    refine (List.pairwise_cons.mp hpairs).2.imp ?_
    rintro a _ hab rfl
    exact hacyclic a hab
  exact (hnodup.subperm hmem).length_le

/-- The layer of a node is the length of the longest walk to it. -/
theorem settle_greatest (hacyclic : Closure.Acyclic fun a b => (a, b) ∈ edges)
    (hnodes : ∀ e ∈ edges, e.1 ∈ nodes) (v : α) :
    IsGreatest {n | Walk edges n v} (settle edges nodes.length (fun _ => 0) v) := by
  rw [settle_eq]
  exact ⟨walk_passes _ v, fun n hn => le_passes hn (hn.le_length hacyclic hnodes)⟩

theorem settle_lt (hacyclic : Closure.Acyclic fun a b => (a, b) ∈ edges)
    (hnodes : ∀ e ∈ edges, e.1 ∈ nodes) {e : α × α} (he : e ∈ edges) :
    settle edges nodes.length (fun _ => 0) e.1 < settle edges nodes.length (fun _ => 0) e.2 := by
  have hstart := (settle_greatest hacyclic hnodes e.1).1
  exact (settle_greatest hacyclic hnodes e.2).2 (hstart.snoc he)

end Layers
