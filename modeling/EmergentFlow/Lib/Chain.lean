import Mathlib.Data.List.Chain
import Mathlib.Data.List.Nodup
import EmergentFlow.Lib.Kahn

/-!
# Chain — edges that form one path

The steps of a path are the pairs of neighbours on it. When the edges, one for one, are the
steps of a path through all nodes, there is one such path only, and any order that the edges
respect is this path (`respects_eq_path`). Edges that are one fewer than the nodes, of which
no two start or end together, are such steps, unless they run in a circle
(`perm_steps_of_degrees`).
-/

namespace Chain

variable {α : Type}

def steps (path : List α) : List (α × α) := path.zip path.tail

@[simp] theorem steps_cons_cons (a b : α) (l : List α) :
    steps (a :: b :: l) = (a, b) :: steps (b :: l) := rfl

@[simp] theorem steps_singleton (a : α) : steps [a] = [] := rfl

theorem length_steps (path : List α) : (steps path).length = path.length - 1 := by
  rw [steps, List.length_zip, List.length_tail]
  omega

theorem map_snd_steps (path : List α) : (steps path).map Prod.snd = path.tail := by
  rw [steps, List.map_snd_zip]
  rw [List.length_tail]
  omega

theorem map_fst_steps (path : List α) : (steps path).map Prod.fst = path.dropLast := by
  induction path with
  | nil => rfl
  | cons a l ih =>
      cases l with
      | nil => rfl
      | cons b l => rw [steps_cons_cons, List.map_cons, ih, List.dropLast_cons_cons]

theorem isChain_of_steps {R : α → α → Prop} {path : List α} (h : ∀ e ∈ steps path, R e.1 e.2) :
    path.IsChain R := by
  induction path with
  | nil => exact .nil
  | cons a l ih =>
      cases l with
      | nil => exact .singleton a
      | cons b l =>
          rw [steps_cons_cons, List.forall_mem_cons] at h
          exact List.isChain_cons_cons.mpr ⟨h.1, ih h.2⟩

variable [DecidableEq α]

/-- One node of a path is no target. -/
theorem countP_tail {path : List α} (h : path.Nodup) (hne : path ≠ []) :
    path.countP (fun a => path.tail.count a = 0) = 1 := by
  cases path with
  | nil => exact absurd rfl hne
  | cons a l =>
      have hnot := (List.nodup_cons.mp h).1
      have hrest : l.countP (fun b => l.count b = 0) = 0 := by
        rw [List.countP_eq_zero]
        intro b hb hzero
        exact List.count_eq_zero.mp (of_decide_eq_true hzero) hb
      rw [List.tail_cons, List.countP_cons, hrest, List.count_eq_zero_of_not_mem hnot]
      rfl

/-- One node of a path is no source. -/
theorem countP_dropLast {path : List α} (h : path.Nodup) (hne : path ≠ []) :
    path.countP (fun a => path.dropLast.count a = 0) = 1 := by
  have hreverse := countP_tail (List.nodup_reverse.mpr h) (List.reverse_eq_nil_iff.not.mpr hne)
  simpa only [List.countP_reverse, List.tail_reverse, List.count_reverse] using hreverse

/-- An order that the steps of a path respect is the path. -/
theorem respects_eq_path {order path : List α} {edges : List (α × α)} (hnodup : order.Nodup)
    (hperm : path.Perm order) (hedges : edges.Perm (steps path))
    (hrespects : Kahn.Respects edges order) : path = order := by
  have hclimbs : path.Pairwise fun a b => order.idxOf a < order.idxOf b := by
    rw [← List.isChain_iff_pairwise]
    refine isChain_of_steps fun e he => ?_
    have hmem : e.2 ∈ path := by
      have := List.mem_map_of_mem (f := Prod.snd) he
      rw [map_snd_steps] at this
      exact List.mem_of_mem_tail this
    exact hrespects.idxOf_lt (hedges.mem_iff.mpr he) (hperm.mem_iff.mp hmem)
  have hsorted : order.Pairwise fun a b => order.idxOf a < order.idxOf b := by
    rw [List.pairwise_iff_getElem]
    intro i j hi hj hlt
    rwa [hnodup.idxOf_getElem, hnodup.idxOf_getElem]
  refine List.Perm.eq_of_pairwise ?_ hclimbs hsorted hperm
  intro a b _ _ hab hba
  omega

omit [DecidableEq α] in
/-- Edges that end in different nodes of a list are no more than its nodes. -/
theorem length_le_of_targets {edges : List (α × α)} {l : List α}
    (hin : (edges.map Prod.snd).Nodup) (htargets : ∀ e ∈ edges, e.2 ∈ l) :
    edges.length ≤ l.length := by
  rw [← List.length_map (f := Prod.snd)]
  refine (hin.subperm fun b hb => ?_).length_le
  obtain ⟨e, he, rfl⟩ := List.mem_map.mp hb
  exact htargets e he

omit [DecidableEq α] in
/-- The first node of an order has an edge to the second, when enough of the edges start
in different nodes: the others end behind the second. -/
theorem exists_first {a b : α} {rest : List α} {edges : List (α × α)}
    (hrespects : Kahn.Respects edges (a :: b :: rest)) (htargets : ∀ e ∈ edges, e.2 ∈ b :: rest)
    (hin : (edges.map Prod.snd).Nodup) (hcount : edges.length = rest.length + 1) :
    ∃ c, (a, c) ∈ edges := by
  by_contra hnone
  have hrest : ∀ e ∈ edges, e.2 ∈ rest := by
    intro e he
    rcases List.mem_cons.mp (htargets e he) with hb | hrest
    · have hsource := hrespects [a] b rest rfl e he hb
      rw [List.mem_singleton] at hsource
      exact absurd ⟨e.2, by rwa [← hsource]⟩ hnone
    · exact hrest
  have := length_le_of_targets hin hrest
  omega

omit [DecidableEq α] in
/-- In an order without repeats, edges that go forward, start and end in different nodes each
and are one fewer than the nodes are the steps of the order. -/
theorem perm_steps_of_degrees {order : List α} {edges : List (α × α)} (hnodup : order.Nodup)
    (hrespects : Kahn.Respects edges order) (htargets : ∀ e ∈ edges, e.2 ∈ order)
    (hin : (edges.map Prod.snd).Nodup) (hout : (edges.map Prod.fst).Nodup)
    (hcount : edges.length + 1 = order.length) : edges.Perm (steps order) := by
  induction order generalizing edges with
  | nil => cases hcount
  | cons a order ih =>
      cases order with
      | nil =>
          rw [List.length_eq_zero_iff.mp (Nat.succ.inj hcount)]
          exact .refl _
      | cons b rest =>
          have htargets' : ∀ e ∈ edges, e.2 ∈ b :: rest := fun e he =>
            (List.mem_cons.mp (htargets e he)).resolve_left fun ha =>
              List.not_mem_nil (hrespects [] a (b :: rest) rfl e he ha)
          obtain ⟨c, hc⟩ := exists_first hrespects htargets' hin (Nat.succ.inj hcount)
          obtain ⟨pre, post, rfl⟩ := List.append_of_mem hc
          have hmiddle : (pre ++ (a, c) :: post).Perm ((a, c) :: (pre ++ post)) :=
            List.perm_middle
          have hin' := (hmiddle.map Prod.snd).nodup_iff.mp hin
          have hout' := (hmiddle.map Prod.fst).nodup_iff.mp hout
          rw [List.map_cons, List.nodup_cons] at hin' hout'
          have hother : ∀ e ∈ pre ++ post, e.1 ≠ a := by
            intro e he heq
            have hsource : e.1 ∈ (pre ++ post).map Prod.fst := List.mem_map_of_mem he
            exact hout'.1 (heq ▸ hsource)
          have hmem : ∀ e ∈ pre ++ post, e ∈ pre ++ (a, c) :: post := fun e he =>
            hmiddle.mem_iff.mpr (List.mem_cons_of_mem _ he)
          have hsteps : (pre ++ post).Perm (steps (b :: rest)) := by
            refine ih (List.nodup_cons.mp hnodup).2 ?_ ?_ hin'.2 hout'.2 ?_
            · intro front n back hsplit e he htarget
              have hsource := hrespects (a :: front) n back (by rw [hsplit]; rfl) e (hmem e he)
                htarget
              exact (List.mem_cons.mp hsource).resolve_left (hother e he)
            · exact fun e he => htargets' e (hmem e he)
            · have := hmiddle.length_eq
              rw [List.length_cons] at this hcount
              omega
          -- every node behind the second is the end of another edge
          have hend : c = b := by
            have hrest := hsteps.map Prod.snd
            rw [map_snd_steps] at hrest
            refine (List.mem_cons.mp (htargets' (a, c) hc)).resolve_right fun hmem => ?_
            exact hin'.1 (hrest.mem_iff.mpr hmem)
          rw [hend, steps_cons_cons]
          rw [hend] at hmiddle
          exact hmiddle.trans (hsteps.cons (a, b))

end Chain
