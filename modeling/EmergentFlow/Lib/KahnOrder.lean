import Mathlib.Data.List.Lex
import EmergentFlow.Lib.Kahn

/-!
# Kahn — which order is found

The order that `Kahn.sort` finds takes the least ready node at every place.
There is one such order only, whatever the order of the nodes and of the
edges given, and it is the lexicographically least of all orders along which
every edge runs forward. What is left out when there is none is what lies on
a cycle or downstream of one.
-/

namespace Kahn

open Relation

variable {α : Type} [LinearOrder α] {nodes : List α} {edges : List (α × α)}

/-- The comparison the heap is kept ascending by. -/
def atMost (a b : α) : Bool := a ≤ b

/-- At every place stands the least of the nodes that could stand there. -/
def Least (nodes : List α) (edges : List (α × α)) (order : List α) : Prop :=
  ∀ pre n post, order = pre ++ n :: post → ∀ m ∈ nodes, m ∉ pre →
    (∀ e ∈ edges, e.2 = m → e.1 ∈ pre) → n ≤ m

theorem Least.nil (nodes : List α) (edges : List (α × α)) : Least nodes edges [] := by
  intro pre n post h
  simp at h

theorem Least.concat {order : List α} {n : α} (h : Least nodes edges order)
    (hn : ∀ m ∈ nodes, m ∉ order → (∀ e ∈ edges, e.2 = m → e.1 ∈ order) → n ≤ m) :
    Least nodes edges (order ++ [n]) := by
  intro pre k post hsplit m hm hfresh hready
  rcases List.eq_nil_or_concat post with rfl | ⟨post', z, rfl⟩
  · obtain ⟨rfl, hlast⟩ := List.append_inj' hsplit rfl
    rw [List.cons.injEq] at hlast
    exact hlast.1 ▸ hn m hm hfresh hready
  · have hsplit' : order ++ [n] = (pre ++ k :: post') ++ [z] := by simpa using hsplit
    exact h pre k post' (List.append_inj' hsplit' rfl).1 m hm hfresh hready

/-! ## What is left out -/

section Remaining

variable {β : Type} [DecidableEq β] {le : β → β → Bool} {ns : List β} {es : List (β × β)}

/-- Some edge runs from `a` to `b`. -/
def Edge (es : List (β × β)) (a b : β) : Prop := (a, b) ∈ es

/-- `n` lies on a cycle or downstream of one. -/
def Behind (es : List (β × β)) (n : β) : Prop :=
  ∃ c, TransGen (Edge es) c c ∧ ReflTransGen (Edge es) c n

omit [DecidableEq β] in
theorem Respects.mem {order : List β} (h : Respects es order) {a b : β} (hedge : Edge es a b)
    (hb : b ∈ order) : a ∈ order := by
  obtain ⟨pre, post, hsplit, -⟩ := List.eq_append_cons_of_mem hb
  have hmem := h pre b post hsplit (a, b) hedge rfl
  rw [hsplit]
  exact List.mem_append_left _ hmem

/-- A path into an order that the edges respect starts in it, and climbs. -/
theorem Respects.path {order : List β} (h : Respects es order) {a b : β}
    (hpath : TransGen (Edge es) a b) (hb : b ∈ order) :
    a ∈ order ∧ order.idxOf a < order.idxOf b := by
  induction hpath with
  | single hedge => exact ⟨h.mem hedge hb, h.idxOf_lt hedge hb⟩
  | tail _ hedge ih =>
      obtain ⟨ha, hlt⟩ := ih (h.mem hedge hb)
      exact ⟨ha, hlt.trans (h.idxOf_lt hedge hb)⟩

theorem Respects.not_behind {order : List β} (h : Respects es order) {n : β} (hn : n ∈ order) :
    ¬ Behind es n := by
  rintro ⟨c, hcycle, hpath⟩
  have hc : c ∈ order := by
    rcases reflTransGen_iff_eq_or_transGen.mp hpath with rfl | hpath
    · exact hn
    · exact (h.path hpath hn).1
  exact absurd (h.path hcycle hc).2 (Nat.lt_irrefl _)

/-- In a finite graph, a set of nodes each of which has an edge from another
one of the set lies behind a cycle. -/
theorem behind_of_closed (hsources : ∀ e ∈ es, e.1 ∈ ns) (p : β → Prop)
    (hclosed : ∀ n, p n → ∃ m, p m ∧ Edge es m n) {n : β} (hn : p n) : Behind es n := by
  classical
  by_contra hnot
  -- a node is ranked by how many nodes lead to it
  let above (m : β) : Finset β := ns.toFinset.filter fun k => TransGen (Edge es) k m
  have hnone : ∀ k m, p m → ReflTransGen (Edge es) m n → (above m).card = k → False := by
    intro k
    induction k using Nat.strong_induction_on with
    | _ k ih =>
        intro m hm hpath hk
        obtain ⟨m', hm', hedge⟩ := hclosed m hm
        have hsource : m' ∈ above m :=
          Finset.mem_filter.mpr ⟨List.mem_toFinset.mpr (hsources _ hedge), .single hedge⟩
        have hstart : m' ∉ above m' := fun hmem =>
          hnot ⟨m', (Finset.mem_filter.mp hmem).2, .head hedge hpath⟩
        have hlt : (above m').card < k := by
          rw [← hk]
          apply Finset.card_lt_card
          refine Finset.ssubset_iff_subset_ne.mpr ⟨?_, fun heq => hstart (heq ▸ hsource)⟩
          intro x hx
          obtain ⟨hmem, hx⟩ := Finset.mem_filter.mp hx
          exact Finset.mem_filter.mpr ⟨hmem, hx.tail hedge⟩
        exact ih _ hlt m' hm' (.head hedge hpath) rfl
  exact hnone _ n hn .refl rfl

variable (hnodes : ns.Nodup) (hedges : ∀ e ∈ es, e.2 ∈ ns) (hsources : ∀ e ∈ es, e.1 ∈ ns)
include hnodes hedges

/-- A node left out has a predecessor that is left out. -/
theorem finish_left_out {n : β} (hn : n ∈ ns) (hleft : n ∉ (finish le ns es).order) :
    ∃ m, m ∉ (finish le ns es).order ∧ Edge es m n := by
  have hzero := (finish_round hnodes hedges le).inv.zero n hn
  rw [finish_ready hnodes hedges le, List.append_nil] at hzero
  by_contra hnone
  refine hleft (hzero.mp (openEdges_eq_zero.mpr fun e he htarget => ?_))
  by_contra hsource
  exact hnone ⟨e.1, hsource, by rw [Edge, ← htarget]; exact he⟩

include hsources

theorem notMem_finish_iff {n : β} (hn : n ∈ ns) :
    n ∉ (finish le ns es).order ↔ Behind es n := by
  constructor
  · intro hleft
    refine behind_of_closed hsources
      (fun m => m ∈ ns ∧ m ∉ (finish le ns es).order) ?_ ⟨hn, hleft⟩
    rintro m ⟨hm, hleft⟩
    obtain ⟨m', hleft', hedge⟩ := finish_left_out hnodes hedges hm hleft
    exact ⟨m', ⟨hsources _ hedge, hleft'⟩, hedge⟩
  · exact fun hbehind hmem =>
      (finish_round hnodes hedges le).respects.not_behind hmem hbehind

omit hedges hsources in
theorem sort_error_nodup {remaining : List β} (h : sort le ns es = .error remaining) :
    remaining.Nodup := by
  simp only [sort] at h
  split at h
  · cases h
  · cases h
    exact hnodes.filter _

/-- The nodes the sort answers with are those behind a cycle. -/
theorem mem_sort_error {remaining : List β} (h : sort le ns es = .error remaining) {n : β} :
    n ∈ remaining ↔ n ∈ ns ∧ Behind es n := by
  simp only [sort] at h
  split at h
  · cases h
  · cases h
    rw [List.mem_filter, decide_eq_true_eq]
    refine and_congr_right fun hn => ?_
    have hround := finish_round hnodes hedges le
    have hzero := hround.inv.zero n hn
    rw [finish_ready hnodes hedges le, List.append_nil] at hzero
    rw [← notMem_finish_iff hnodes hedges hsources hn, ← hzero, hround.inv.degree n hn,
      Option.getD_some]
    omega

theorem sort_eq_ok_iff : (∃ order, sort le ns es = .ok order) ↔ Closure.Acyclic (Edge es) := by
  constructor
  · rintro ⟨order, h⟩ c hcycle
    obtain ⟨hperm, hrespects⟩ := sort_eq_ok hnodes hedges h
    obtain ⟨b, hedge, -⟩ := TransGen.head'_iff.mp hcycle
    exact hrespects.not_behind (hperm.mem_iff.mpr (hsources _ hedge)) ⟨c, hcycle, .refl⟩
  · exact fun hacyclic => sort_of_acyclic hnodes hedges hacyclic hsources

end Remaining

/-! ## The heap stays ascending -/

theorem total_atMost : Std.Total (fun a b : α => atMost a b = true) :=
  ⟨fun a b => by simpa [atMost] using le_total a b⟩

theorem trans_atMost : IsTrans α (fun a b => atMost a b = true) := by
  refine ⟨fun a b c hab hbc => ?_⟩
  simp only [atMost, decide_eq_true_eq] at *
  exact hab.trans hbc

theorem relax_sorted {st : State α} (h : st.ready.Pairwise (atMost · · = true)) (succ : α) :
    (relax atMost st succ).ready.Pairwise (atMost · · = true) := by
  have htotal : Std.Total (fun a b : α => atMost a b = true) := total_atMost
  have htrans : IsTrans α (fun a b => atMost a b = true) := trans_atMost
  simp only [relax]
  split
  · exact List.Pairwise.orderedInsert _ _ h
  · exact h

theorem relax_all_sorted {l : List α} {st : State α}
    (h : st.ready.Pairwise (atMost · · = true)) :
    (l.foldl (relax atMost) st).ready.Pairwise (atMost · · = true) := by
  induction l generalizing st with
  | nil => exact h
  | cons a l ih => exact ih (relax_sorted h a)

theorem init_sorted (nodes : List α) (edges : List (α × α)) :
    (init atMost nodes edges).ready.Pairwise (atMost · · = true) := by
  have htotal : Std.Total (fun a b : α => atMost a b = true) := total_atMost
  have htrans : IsTrans α (fun a b => atMost a b = true) := trans_atMost
  exact List.pairwise_insertionSort _ _

/-! ## The least order -/

/-- The invariant between two rounds, with the heap ascending and every
choice so far the least. -/
structure LeastRound (nodes : List α) (edges : List (α × α)) (st : State α) : Prop where
  round : Round nodes edges st
  sorted : st.ready.Pairwise (atMost · · = true)
  least : Least nodes edges st.order

theorem pop_least (hedges : ∀ e ∈ edges, e.2 ∈ nodes) {st : State α} {n : α} {rest : List α}
    (h : LeastRound nodes edges st) (hready : st.ready = n :: rest) :
    LeastRound nodes edges (pop atMost edges st n rest) := by
  have hsorted := h.sorted
  rw [hready, List.pairwise_cons] at hsorted
  refine ⟨pop_round atMost hedges h.round hready, relax_all_sorted hsorted.2, ?_⟩
  rw [pop_order]
  apply h.least.concat
  intro m hm hfresh hclosed
  -- a node that could be listed now is in the heap
  have hmem := (h.round.inv.zero m hm).mp (openEdges_eq_zero.mpr hclosed)
  rw [hready] at hmem
  rcases List.mem_append.mp hmem with hmem | hmem
  · exact absurd hmem hfresh
  · rcases List.mem_cons.mp hmem with rfl | hmem
    · exact le_rfl
    · simpa [atMost] using hsorted.1 m hmem

theorem loop_least (hedges : ∀ e ∈ edges, e.2 ∈ nodes) (fuel : Nat) {st : State α}
    (h : LeastRound nodes edges st) : LeastRound nodes edges (loop atMost edges fuel st) := by
  induction fuel generalizing st with
  | zero => exact h
  | succ fuel ih =>
      rw [loop]
      cases hready : st.ready with
      | nil => exact h
      | cons n rest => exact ih (pop_least hedges h hready)

theorem finish_least (hnodes : nodes.Nodup) (hedges : ∀ e ∈ edges, e.2 ∈ nodes) :
    Least nodes edges (finish atMost nodes edges).order :=
  (loop_least hedges nodes.length
    ⟨init_round hnodes edges, init_sorted nodes edges, Least.nil nodes edges⟩).least

theorem sort_least (hnodes : nodes.Nodup) (hedges : ∀ e ∈ edges, e.2 ∈ nodes) {order : List α}
    (h : sort atMost nodes edges = .ok order) : Least nodes edges order := by
  simp only [sort] at h
  split at h
  · cases h
    exact finish_least hnodes hedges
  · cases h

/-- The order that always takes the least node comes first among the orders
along which every edge runs forward. -/
theorem Least.le {order order' : List α} (h : Least nodes edges order)
    (hperm : order.Perm nodes) (hperm' : order'.Perm nodes) (hnodes : nodes.Nodup)
    (hrespects : Respects edges order') : order ≤ order' := by
  have hnodup' : order'.Nodup := hperm'.nodup_iff.mpr hnodes
  -- compare the two behind a common beginning
  have hbehind : ∀ s s' pre : List α, order = pre ++ s → order' = pre ++ s' → s ≤ s' := by
    intro s
    induction s with
    | nil =>
        intro s' pre hs hs'
        have hlen : order.length = order'.length := hperm.length_eq.trans hperm'.length_eq.symm
        rw [hs, hs', List.length_append, List.length_append, List.length_nil] at hlen
        have hnil : s' = [] := List.length_eq_zero_iff.mp (by omega)
        rw [hnil]
    | cons n s ih =>
        intro s' pre hs hs'
        cases s' with
        | nil =>
            have hlen : order.length = order'.length := hperm.length_eq.trans hperm'.length_eq.symm
            rw [hs, hs'] at hlen
            simp at hlen
        | cons m s' =>
            have hm : m ∈ nodes := hperm'.mem_iff.mp (by rw [hs']; simp)
            have hfresh : m ∉ pre := by
              intro hmem
              rw [hs', List.nodup_append] at hnodup'
              exact hnodup'.2.2 m hmem m List.mem_cons_self rfl
            have hle := h pre n s hs m hm hfresh (hrespects pre m s' hs')
            rcases hle.lt_or_eq with hlt | rfl
            · exact le_of_lt (List.Lex.rel hlt)
            · exact List.cons_le_cons n (ih s' (pre ++ [n]) (by simpa using hs) (by simpa using hs'))
  exact hbehind order order' [] rfl rfl

/-- There is one such order only. -/
theorem Least.unique {order order' nodes' : List α} {edges' : List (α × α)}
    (h : Least nodes edges order) (h' : Least nodes' edges' order')
    (hperm : order.Perm nodes) (hperm' : order'.Perm nodes') (hnodup : nodes.Nodup)
    (hnodes : nodes'.Perm nodes) (hedges : ∀ e, e ∈ edges' ↔ e ∈ edges)
    (hrespects : Respects edges order) (hrespects' : Respects edges' order') :
    order = order' := by
  have hforward : Respects edges order' := fun pre n post hs e he =>
    hrespects' pre n post hs e ((hedges e).mpr he)
  have hforward' : Respects edges' order := fun pre n post hs e he =>
    hrespects pre n post hs e ((hedges e).mp he)
  exact le_antisymm (h.le hperm (hperm'.trans hnodes) hnodup hforward)
    (h'.le hperm' (hperm.trans hnodes.symm) (hnodes.nodup_iff.mpr hnodup) hforward')

end Kahn
