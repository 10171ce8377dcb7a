import Mathlib.Data.List.Perm.Subperm
import Mathlib.Data.List.Sort
import Mathlib.Data.Finset.Card
import EmergentFlow.Lib.Dict
import EmergentFlow.Lib.Closure

/-!
# Kahn — topological order by counting in-degrees

Kahn's algorithm over a finite list of nodes and a list of edges, with the
ready nodes kept ascending so that ties are broken by the least node.
Parallel edges count once each. The sort answers with an order in which
every edge runs forward, or with the nodes whose in-degree never reached
zero; it finds an order whenever there is one.
-/

namespace Kahn

variable {α : Type}

/-- Every edge into a node of the list starts at an earlier node of it. -/
def Respects (edges : List (α × α)) (order : List α) : Prop :=
  ∀ pre n post, order = pre ++ n :: post → ∀ e ∈ edges, e.2 = n → e.1 ∈ pre

theorem Respects.nil (edges : List (α × α)) : Respects edges [] := by
  intro pre n post h
  simp at h

/-- A node all of whose predecessors are listed can be listed next. -/
theorem Respects.concat {edges : List (α × α)} {order : List α} {n : α}
    (h : Respects edges order) (hn : ∀ e ∈ edges, e.2 = n → e.1 ∈ order) :
    Respects edges (order ++ [n]) := by
  intro pre m post hsplit e he hm
  rcases List.eq_nil_or_concat post with rfl | ⟨post', z, rfl⟩
  · obtain ⟨rfl, hlast⟩ := List.append_inj' hsplit rfl
    rw [List.cons.injEq] at hlast
    exact hn e he (hm.trans hlast.1.symm)
  · have hsplit' : order ++ [n] = (pre ++ m :: post') ++ [z] := by simpa using hsplit
    exact h pre m post' (List.append_inj' hsplit' rfl).1 e he hm

/-! ## The algorithm -/

variable [DecidableEq α]

/-- The in-degrees still open, the heap of ready nodes, the order so far. -/
structure State (α : Type) where
  indegree : Dict α Int
  ready : List α
  order : List α

/-- How many edges run into `n`. -/
def indegree (edges : List (α × α)) (n : α) : Nat := edges.countP (·.2 = n)

/-- The targets of the edges that leave `n`, in edge order. -/
def successors (edges : List (α × α)) (n : α) : List α :=
  (edges.filter (·.1 = n)).map Prod.snd

variable (le : α → α → Bool)

/-- The state before the loop: every node with its in-degree, and the
nodes of in-degree zero in the heap. -/
def init (nodes : List α) (edges : List (α × α)) : State α where
  indegree := Dict.ofList (nodes.map fun n => (n, (indegree edges n : Int)))
  ready := (nodes.filter fun n => indegree edges n = 0).insertionSort (le · · = true)
  order := []

/-- One edge into `succ` is accounted for; at zero the node is pushed. -/
def relax (st : State α) (succ : α) : State α :=
  let degree := (st.indegree.get? succ).getD 0 - 1
  { st with
    indegree := st.indegree.set succ degree
    ready := if degree = 0 then st.ready.orderedInsert (le · · = true) succ else st.ready }

/-- Pop the least ready node and relax the edges that leave it. -/
def pop (edges : List (α × α)) (st : State α) (n : α) (rest : List α) : State α :=
  (successors edges n).foldl (relax le) { st with ready := rest, order := st.order ++ [n] }

/-- The loop `while ready`, for at most `fuel` rounds. -/
def loop (edges : List (α × α)) : Nat → State α → State α
  | 0, st => st
  | fuel + 1, st =>
      match st.ready with
      | [] => st
      | n :: rest => loop edges fuel (pop le edges st n rest)

/-- The state after the loop. Every round lists a node, so as many rounds
as there are nodes empty the heap (`Inv.ready_nil`). -/
def finish (nodes : List α) (edges : List (α × α)) : State α :=
  loop le edges nodes.length (init le nodes edges)

/-- The order found, or the nodes that never became ready. -/
def sort (nodes : List α) (edges : List (α × α)) : Except (List α) (List α) :=
  let st := finish le nodes edges
  if st.order.length = nodes.length then .ok st.order
  else .error (nodes.filter fun n => 0 < (st.indegree.get? n).getD 0)

/-! ## The invariant

`left n` is the number of edges into `n` not accounted for yet. -/

/-- The state of the loop when `left` counts the open edges. -/
structure Inv (nodes : List α) (left : α → Nat) (st : State α) : Prop where
  nodup : (st.order ++ st.ready).Nodup
  subset : ∀ n ∈ st.order ++ st.ready, n ∈ nodes
  degree : ∀ n ∈ nodes, st.indegree.get? n = some (left n : Int)
  zero : ∀ n ∈ nodes, left n = 0 ↔ n ∈ st.order ++ st.ready

variable {le} {nodes : List α} {edges : List (α × α)}

@[simp] theorem relax_order (st : State α) (succ : α) : (relax le st succ).order = st.order := rfl

theorem relax_inv {left : α → Nat} {st : State α} {succ : α} (hsucc : succ ∈ nodes)
    (h : Inv nodes (fun n => left n + if n = succ then 1 else 0) st) :
    Inv nodes left (relax le st succ) := by
  have hdegree : (st.indegree.get? succ).getD 0 - 1 = (left succ : Int) := by
    rw [h.degree succ hsucc]
    simp
  -- an edge into the successor is still to come, so it is not ready yet
  have hnew : succ ∉ st.order ++ st.ready := by
    intro hmem
    have := (h.zero succ hsucc).mpr hmem
    simp at this
  have hindegree : ∀ n ∈ nodes,
      (relax le st succ).indegree.get? n = some (left n : Int) := by
    intro n hn
    simp only [relax, Dict.get?_set, hdegree]
    by_cases heq : succ = n
    · rw [if_pos heq, heq]
    · have := h.degree n hn
      rw [if_neg heq, this, if_neg (Ne.symm heq), Nat.add_zero]
  by_cases hzero : left succ = 0
  · have hready : (relax le st succ).ready = st.ready.orderedInsert (le · · = true) succ := by
      simp [relax, hdegree, hzero]
    have hperm : (st.order ++ (relax le st succ).ready).Perm (succ :: (st.order ++ st.ready)) := by
      rw [hready]
      exact (List.Perm.append_left _ (List.perm_orderedInsert _ _ _)).trans List.perm_middle
    refine ⟨hperm.nodup_iff.mpr (List.nodup_cons.mpr ⟨hnew, h.nodup⟩), ?_, hindegree, ?_⟩
    · intro n hn
      rcases List.mem_cons.mp (hperm.mem_iff.mp hn) with rfl | hn
      · exact hsucc
      · exact h.subset n hn
    · intro n hn
      rw [relax_order, hperm.mem_iff, List.mem_cons, ← h.zero n hn]
      by_cases heq : n = succ
      · simp [heq, hzero]
      · simp [heq]
  · have hready : (relax le st succ).ready = st.ready := by
      simp [relax, hdegree, hzero]
    refine ⟨by rw [relax_order, hready]; exact h.nodup, by rw [relax_order, hready]; exact h.subset,
      hindegree, ?_⟩
    intro n hn
    rw [relax_order, hready, ← h.zero n hn]
    by_cases heq : n = succ
    · simp [heq, hzero]
    · simp [heq]

theorem relax_all_order (l : List α) (st : State α) : (l.foldl (relax le) st).order = st.order := by
  induction l generalizing st with
  | nil => rfl
  | cons a l ih => rw [List.foldl_cons, ih, relax_order]

theorem relax_all_inv {left : α → Nat} {l : List α} {st : State α} (hl : ∀ n ∈ l, n ∈ nodes)
    (h : Inv nodes (fun n => left n + l.count n) st) : Inv nodes left (l.foldl (relax le) st) := by
  induction l generalizing st with
  | nil => simpa using h
  | cons a l ih =>
      rw [List.foldl_cons]
      apply ih fun n hn => hl n (List.mem_cons_of_mem _ hn)
      apply relax_inv (hl a List.mem_cons_self)
      have hcount : (fun n => left n + l.count n + if n = a then 1 else 0)
          = fun n => left n + (a :: l).count n := by
        funext n
        rw [List.count_cons, Nat.add_assoc]
        simp only [beq_iff_eq, @eq_comm _ a]
      rw [hcount]
      exact h

/-- The edges into `n` from nodes not listed yet. -/
def openEdges (edges : List (α × α)) (order : List α) (n : α) : Nat :=
  edges.countP fun e => e.2 = n ∧ e.1 ∉ order

theorem openEdges_eq_zero {order : List α} {n : α} :
    openEdges edges order n = 0 ↔ ∀ e ∈ edges, e.2 = n → e.1 ∈ order := by
  simp [openEdges, List.countP_eq_zero]

/-- Listing `m` closes the edges that leave it. -/
theorem openEdges_concat {order : List α} {m : α} (hm : m ∉ order) (n : α) :
    openEdges edges order n = openEdges edges (order ++ [m]) n + (successors edges m).count n := by
  induction edges with
  | nil => rfl
  | cons e edges ih =>
      simp only [openEdges, successors, List.countP_cons, List.filter_cons] at ih ⊢
      by_cases hsource : e.1 = m
      · by_cases htarget : e.2 = n
        · simp [hsource, htarget, hm] at ih ⊢
          omega
        · simp [hsource, htarget, hm] at ih ⊢
          omega
      · by_cases htarget : e.2 = n
        · simp [hsource, htarget] at ih ⊢
          split <;> omega
        · simp [hsource, htarget] at ih ⊢
          omega

/-- The invariant between two rounds. -/
structure Round (nodes : List α) (edges : List (α × α)) (st : State α) : Prop where
  inv : Inv nodes (openEdges edges st.order) st
  respects : Respects edges st.order

theorem init_round (hnodes : nodes.Nodup) (edges : List (α × α)) :
    Round nodes edges (init le nodes edges) := by
  have hopen : ∀ n, openEdges edges [] n = indegree edges n := by
    intro n
    simp [openEdges, indegree]
  have hperm : ((init le nodes edges).order ++ (init le nodes edges).ready).Perm
      (nodes.filter fun n => indegree edges n = 0) := List.perm_insertionSort _ _
  refine ⟨⟨hperm.nodup_iff.mpr (hnodes.filter _), ?_, ?_, ?_⟩, Respects.nil edges⟩
  · intro n hn
    exact List.mem_of_mem_filter (hperm.mem_iff.mp hn)
  · intro n hn
    have hkeys : (nodes.map fun n => (n, (indegree edges n : Int))).map Prod.fst = nodes := by
      simp [Function.comp_def]
    have hentries := Dict.entries_ofList (l := nodes.map fun n => (n, (indegree edges n : Int)))
      (by rw [hkeys]; exact hnodes)
    rw [← Dict.mem_entries_iff, init, hentries]
    exact List.mem_map.mpr ⟨n, hn, by rw [hopen]⟩
  · intro n hn
    rw [hperm.mem_iff, List.mem_filter, decide_eq_true_eq]
    exact ⟨fun h => ⟨hn, (hopen n).symm.trans h⟩, fun h => (hopen n).trans h.2⟩

theorem pop_order (st : State α) (n : α) (rest : List α) :
    (pop le edges st n rest).order = st.order ++ [n] := relax_all_order _ _

theorem pop_round (le : α → α → Bool) (hedges : ∀ e ∈ edges, e.2 ∈ nodes) {st : State α} {n : α}
    {rest : List α} (h : Round nodes edges st) (hready : st.ready = n :: rest) :
    Round nodes edges (pop le edges st n rest) := by
  have hlist : st.order ++ [n] ++ rest = st.order ++ st.ready := by rw [hready]; simp
  have hfresh : n ∉ st.order := by
    intro hmem
    have hnodup := h.inv.nodup
    rw [hready, List.nodup_append] at hnodup
    exact hnodup.2.2 n hmem n List.mem_cons_self rfl
  have hn : n ∈ nodes := h.inv.subset n (by rw [hready]; simp)
  have hclosed : openEdges edges st.order n = 0 := (h.inv.zero n hn).mpr (by rw [hready]; simp)
  refine ⟨?_, ?_⟩
  · rw [pop_order]
    apply relax_all_inv
    · intro m hm
      obtain ⟨e, he, rfl⟩ := List.mem_map.mp hm
      exact hedges e (List.mem_of_mem_filter he)
    · have hcount : (fun m => openEdges edges (st.order ++ [n]) m + (successors edges n).count m)
          = openEdges edges st.order := by
        funext m
        rw [← openEdges_concat hfresh]
      rw [hcount]
      exact ⟨hlist ▸ h.inv.nodup, hlist ▸ h.inv.subset, h.inv.degree,
        fun m hm => by rw [h.inv.zero m hm, ← hlist]⟩
  · rw [pop_order]
    exact h.respects.concat (openEdges_eq_zero.mp hclosed)

/-- After enough rounds the invariant holds and the heap is empty, or as
many nodes are listed as there were rounds. -/
theorem loop_round (le : α → α → Bool) (hedges : ∀ e ∈ edges, e.2 ∈ nodes) (fuel : Nat) {st : State α}
    (h : Round nodes edges st) : Round nodes edges (loop le edges fuel st) ∧
      ((loop le edges fuel st).ready = [] ∨
        (loop le edges fuel st).order.length = st.order.length + fuel) := by
  induction fuel generalizing st with
  | zero => exact ⟨h, .inr rfl⟩
  | succ fuel ih =>
      rw [loop]
      cases hready : st.ready with
      | nil => exact ⟨h, .inl hready⟩
      | cons n rest =>
          obtain ⟨hround, hend⟩ := ih (pop_round le hedges h hready)
          refine ⟨hround, hend.imp_right fun hlen => ?_⟩
          rw [hlen, pop_order, List.length_append, List.length_singleton]
          omega

theorem Inv.length_le {left : α → Nat} {st : State α} (h : Inv nodes left st) :
    st.order.length + st.ready.length ≤ nodes.length := by
  rw [← List.length_append]
  exact (List.subperm_of_subset h.nodup h.subset).length_le

section Finish

variable (hnodes : nodes.Nodup) (hedges : ∀ e ∈ edges, e.2 ∈ nodes)
include hnodes hedges

theorem finish_round (le : α → α → Bool) : Round nodes edges (finish le nodes edges) :=
  (loop_round le hedges nodes.length (init_round hnodes edges)).1

/-- The loop ends because the heap is empty. -/
theorem finish_ready (le : α → α → Bool) : (finish le nodes edges).ready = [] := by
  unfold finish
  obtain ⟨hround, hend⟩ := loop_round le hedges nodes.length (init_round hnodes edges)
  rcases hend with hend | hlen
  · exact hend
  · have hle := hround.inv.length_le
    rw [hlen, show (init le nodes edges).order = [] from rfl, List.length_nil] at hle
    exact List.length_eq_zero_iff.mp (by omega)

/-- The order found lists every node once, and every edge runs forward. -/
theorem sort_eq_ok {order : List α} (h : sort le nodes edges = .ok order) :
    order.Perm nodes ∧ Respects edges order := by
  simp only [sort] at h
  split at h
  · rename_i hlen
    cases h
    have hround := finish_round hnodes hedges le
    have hnodup : (finish le nodes edges).order.Nodup := hround.inv.nodup.of_append_left
    have hsub : (finish le nodes edges).order ⊆ nodes := fun n hn =>
      hround.inv.subset n (List.mem_append_left _ hn)
    exact ⟨(List.subperm_of_subset hnodup hsub).perm_of_length_le hlen.ge, hround.respects⟩
  · cases h

/-- Edges along which some rank grows admit an order, and it is found. -/
theorem sort_of_rank (rank : α → Nat) (hrank : ∀ e ∈ edges, rank e.1 < rank e.2)
    (hsources : ∀ e ∈ edges, e.1 ∈ nodes) : ∃ order, sort le nodes edges = .ok order := by
  have hround := finish_round hnodes hedges le
  have hready := finish_ready hnodes hedges le
  -- a node left out has a predecessor left out, of smaller rank
  have hall : ∀ k, ∀ n ∈ nodes, rank n = k → n ∈ (finish le nodes edges).order := by
    intro k
    induction k using Nat.strong_induction_on with
    | _ k ih =>
        intro n hn hk
        have hclosed : openEdges edges (finish le nodes edges).order n = 0 := by
          rw [openEdges_eq_zero]
          intro e he htarget
          exact ih (rank e.1) (hk ▸ htarget ▸ hrank e he) e.1 (hsources e he) rfl
        have := (hround.inv.zero n hn).mp hclosed
        simpa [hready] using this
  have hlen : (finish le nodes edges).order.length = nodes.length := by
    apply Nat.le_antisymm
    · have := hround.inv.length_le
      omega
    · exact (List.subperm_of_subset hnodes fun n hn => hall _ n hn rfl).length_le
  exact ⟨(finish le nodes edges).order, by simp only [sort, if_pos hlen]⟩

/-- Edges without a cycle admit an order, and it is found. -/
theorem sort_of_acyclic (hacyclic : Closure.Acyclic fun a b => (a, b) ∈ edges)
    (hsources : ∀ e ∈ edges, e.1 ∈ nodes) : ∃ order, sort le nodes edges = .ok order := by
  classical
  -- a node is ranked by how many nodes lead to it
  let above (n : α) : Finset α :=
    nodes.toFinset.filter fun m => Relation.TransGen (fun a b => (a, b) ∈ edges) m n
  apply sort_of_rank hnodes hedges (fun n => (above n).card) _ hsources
  intro e he
  apply Finset.card_lt_card
  refine Finset.ssubset_iff_subset_ne.mpr ⟨?_, ?_⟩
  · intro m hm
    obtain ⟨hmem, hpath⟩ := Finset.mem_filter.mp hm
    exact Finset.mem_filter.mpr ⟨hmem, hpath.tail he⟩
  · intro heq
    have hsource : e.1 ∈ above e.2 :=
      Finset.mem_filter.mpr ⟨List.mem_toFinset.mpr (hsources e he), .single he⟩
    rw [← heq] at hsource
    exact hacyclic e.1 (Finset.mem_filter.mp hsource).2

end Finish

/-- An order that respects the edges ranks them. -/
theorem Respects.idxOf_lt {order : List α} (h : Respects edges order) {e : α × α}
    (he : e ∈ edges) (htarget : e.2 ∈ order) : order.idxOf e.1 < order.idxOf e.2 := by
  obtain ⟨pre, post, hsplit, hnot⟩ := List.eq_append_cons_of_mem htarget
  have hmem := h pre e.2 post hsplit e he rfl
  rw [hsplit, List.idxOf_append_of_mem hmem, List.idxOf_append_of_notMem hnot,
    List.idxOf_cons_self, Nat.add_zero]
  exact List.idxOf_lt_length_iff.mpr hmem

/-- In such an order no edge runs backward. -/
theorem Respects.pairwise {order : List α} (h : Respects edges order) (hnodup : order.Nodup) :
    order.Pairwise fun a b => (b, a) ∉ edges := by
  rw [List.pairwise_iff_getElem]
  intro i j hi hj hlt hedge
  have := h.idxOf_lt hedge (List.getElem_mem hi)
  rw [hnodup.idxOf_getElem, hnodup.idxOf_getElem] at this
  omega

theorem mem_successors {a b : α} : b ∈ successors edges a ↔ (a, b) ∈ edges := by
  simp only [successors, List.mem_map, List.mem_filter, decide_eq_true_eq]
  constructor
  · rintro ⟨⟨x, y⟩, ⟨hmem, rfl⟩, rfl⟩
    exact hmem
  · intro hmem
    exact ⟨(a, b), ⟨hmem, rfl⟩, rfl⟩

end Kahn
