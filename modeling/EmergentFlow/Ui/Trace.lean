import EmergentFlow.Lib.Buckets
import EmergentFlow.Lib.Flood
import Mathlib.Data.Finset.Union

/-!
# Ui — Trace

What the canvas highlights around some nodes (`ui/src/canvas/trace.ts`): the reach of
the roots along the drawn edges, and the route from one node to another. Edges
are drawn between visible nodes; an edge that names another id counts for nothing.

`Reaches` and `Walk` say what is to be highlighted without the worklist. The reach
is the closure of the roots, one direction at a time; the route is all that lies
on some walk, which is less obvious, since it is computed from two closures and
an edge test at the ends only.
-/

namespace EmergentFlow.Tracing

open Relation (ReflTransGen)

structure TraceEdge where
  id : String
  source : String
  target : String
  deriving DecidableEq, Repr

structure TraceResult where
  active : Bool
  highlightedNodeIds : Finset String
  highlightedEdgeIds : Finset String
  deriving DecidableEq

inductive TraceDirection where
  | downstream
  | upstream
  | both
  deriving DecidableEq, Repr

/-! ## The closures -/

/-- An edge between visible nodes. -/
def TraceEdge.Drawn (nodeIds : List String) (edge : TraceEdge) : Prop :=
  edge.source ∈ nodeIds ∧ edge.target ∈ nodeIds

instance (nodeIds : List String) (edge : TraceEdge) : Decidable (edge.Drawn nodeIds) :=
  inferInstanceAs (Decidable (_ ∧ _))

/-- Where an edge is entered and left. -/
def TraceEdge.ends (edge : TraceEdge) (reverse : Bool) : String × String :=
  if reverse then (edge.target, edge.source) else (edge.source, edge.target)

def buildAdjacency (nodeIds : List String) (edges : List TraceEdge) (reverse : Bool) :
    Dict String (List String) :=
  Buckets.collect (fun edge : TraceEdge => (edge.ends reverse).1) (fun edge => (edge.ends reverse).2)
    (edges.filter fun edge => edge.Drawn nodeIds)

/-- The lookups of an adjacency map lead into the lists it holds. -/
def neighbours (adjacency : Dict String (List String)) : Flood.Neighbours String where
  succ id := (adjacency.get? id).getD []
  all := adjacency.values.flatten.toFinset
  covers id next h := by
    cases hget : adjacency.get? id with
    | none => simp [hget] at h
    | some list =>
        rw [hget, Option.getD_some] at h
        exact List.mem_toFinset.mpr (List.mem_flatten.mpr
          ⟨list, (adjacency.mem_values_iff).mpr ⟨id, hget⟩, h⟩)

/-- `closure`: the seeds that are visible, and what they lead to. -/
def closure (seeds nodeIds : List String) (adjacency : Dict String (List String)) :
    Finset String :=
  Flood.flood (neighbours adjacency) (Flood.pushAll ⟨[], ∅⟩ (seeds.filter (· ∈ nodeIds)))

/-! ## Reach and route -/

/-- The ids of the edges with both ends in one of the sets. -/
def edgesWithin (sets : List (Finset String)) (edges : List TraceEdge) : Finset String :=
  ((edges.filter fun edge => sets.any fun set => edge.source ∈ set ∧ edge.target ∈ set).map
    (·.id)).toFinset

def computeReach (rootIds nodeIds : List String) (edges : List TraceEdge)
    (direction : TraceDirection) : TraceResult :=
  if rootIds.length = 0 then { active := false, highlightedNodeIds := ∅, highlightedEdgeIds := ∅ }
  else
    let downstream :=
      if direction = .downstream ∨ direction = .both then
        [closure rootIds nodeIds (buildAdjacency nodeIds edges false)]
      else []
    let upstream :=
      if direction = .upstream ∨ direction = .both then
        [closure rootIds nodeIds (buildAdjacency nodeIds edges true)]
      else []
    let closures := downstream ++ upstream
    { active := true
      highlightedNodeIds := closures.foldl (· ∪ ·) ∅
      highlightedEdgeIds := edgesWithin closures edges }

structure RouteResult extends TraceResult where
  found : Bool

def computeRoute (fromId toId : String) (nodeIds : List String) (edges : List TraceEdge) :
    RouteResult :=
  let notFound : RouteResult :=
    { active := true, found := false, highlightedNodeIds := ∅, highlightedEdgeIds := ∅ }
  if fromId ∉ nodeIds ∨ toId ∉ nodeIds then notFound
  else if fromId = toId then
    { active := true, found := true, highlightedNodeIds := {fromId}, highlightedEdgeIds := ∅ }
  else
    let down := closure [fromId] nodeIds (buildAdjacency nodeIds edges false)
    if toId ∉ down then notFound
    else
      let up := closure [toId] nodeIds (buildAdjacency nodeIds edges true)
      let highlightedNodeIds := down ∩ up
      { active := true
        found := true
        highlightedNodeIds
        highlightedEdgeIds := edgesWithin [highlightedNodeIds] edges }

/-! ## What is to be highlighted -/

/-- One edge, in a direction. -/
def Follows (nodeIds : List String) (edges : List TraceEdge) (reverse : Bool) (a b : String) :
    Prop :=
  ∃ edge ∈ edges, edge.Drawn nodeIds ∧ edge.ends reverse = (a, b)

/-- A visible root leads to the node. -/
def Reaches (rootIds nodeIds : List String) (edges : List TraceEdge) (reverse : Bool)
    (id : String) : Prop :=
  ∃ root ∈ rootIds, root ∈ nodeIds ∧ ReflTransGen (Follows nodeIds edges reverse) root id

/-- The closures that a direction asks for; `both` asks for two, not for
walks that turn around. -/
def TraceDirection.Asks : TraceDirection → Bool → Prop
  | .downstream, reverse => reverse = false
  | .upstream, reverse => reverse = true
  | .both, _ => True

/-- A walk along the drawn edges, edge after edge. -/
inductive Walk (nodeIds : List String) (edges : List TraceEdge) :
    String → List TraceEdge → String → Prop
  | nil {a : String} : a ∈ nodeIds → Walk nodeIds edges a [] a
  | cons {edge : TraceEdge} {walk : List TraceEdge} {b : String} :
      edge ∈ edges → edge.Drawn nodeIds → Walk nodeIds edges edge.target walk b →
      Walk nodeIds edges edge.source (edge :: walk) b

/-- A node that a walk from `a` passes. -/
def OnWalk (a : String) (walk : List TraceEdge) (id : String) : Prop :=
  id = a ∨ ∃ edge ∈ walk, id = edge.target

variable {nodeIds : List String} {edges : List TraceEdge}

/-! ## The adjacency map -/

/-- A step in the adjacency map is an edge. -/
theorem step_buildAdjacency (reverse : Bool) {a b : String} :
    (neighbours (buildAdjacency nodeIds edges reverse)).Step a b ↔
      Follows nodeIds edges reverse a b := by
  have hmem : (neighbours (buildAdjacency nodeIds edges reverse)).Step a b ↔
      b ∈ ((edges.filter fun edge => edge.Drawn nodeIds).filter
        fun edge => (edge.ends reverse).1 = a).map fun edge => (edge.ends reverse).2 := by
    rw [← Buckets.getD_collect]
    rfl
  rw [hmem, Follows]
  simp only [List.mem_map, List.mem_filter, decide_eq_true_eq, and_assoc, Prod.ext_iff]

theorem mem_closure_iff (seeds : List String) (reverse : Bool) {id : String} :
    id ∈ closure seeds nodeIds (buildAdjacency nodeIds edges reverse) ↔
      Reaches seeds nodeIds edges reverse id := by
  have hstep : (neighbours (buildAdjacency nodeIds edges reverse)).Step =
      Follows nodeIds edges reverse := by
    funext a b
    exact propext (step_buildAdjacency reverse)
  rw [closure, Flood.mem_flood_iff, hstep]
  simp only [List.mem_filter, decide_eq_true_eq, and_assoc, Reaches]

theorem mem_edgesWithin {sets : List (Finset String)} {id : String} :
    id ∈ edgesWithin sets edges ↔
      ∃ edge ∈ edges, edge.id = id ∧ ∃ set ∈ sets, edge.source ∈ set ∧ edge.target ∈ set := by
  simp only [edgesWithin, List.mem_toFinset, List.mem_map, List.mem_filter, List.any_eq_true,
    decide_eq_true_eq]
  constructor
  · rintro ⟨edge, ⟨hedge, hset⟩, hid⟩
    exact ⟨edge, hedge, hid, hset⟩
  · rintro ⟨edge, hedge, hid, hset⟩
    exact ⟨edge, ⟨hedge, hset⟩, hid⟩

/-! ## Reach -/

theorem mem_foldl_union {sets : List (Finset String)} {seen : Finset String} {id : String} :
    id ∈ sets.foldl (· ∪ ·) seen ↔ id ∈ seen ∨ ∃ set ∈ sets, id ∈ set := by
  induction sets generalizing seen with
  | nil => simp
  | cons set sets ih => simp [ih, or_assoc]

/-- The reach is the union of the closures that the direction asks for, and
an edge is in it if one of these closures has both its ends. -/
theorem computeReach_exact (rootIds nodeIds : List String) (edges : List TraceEdge)
    (direction : TraceDirection) :
    ((computeReach rootIds nodeIds edges direction).active = true ↔ rootIds ≠ []) ∧
    (∀ id, id ∈ (computeReach rootIds nodeIds edges direction).highlightedNodeIds ↔
      ∃ reverse, direction.Asks reverse ∧ Reaches rootIds nodeIds edges reverse id) ∧
    ∀ id, id ∈ (computeReach rootIds nodeIds edges direction).highlightedEdgeIds ↔
      ∃ edge ∈ edges, edge.id = id ∧ ∃ reverse, direction.Asks reverse ∧
        Reaches rootIds nodeIds edges reverse edge.source ∧
        Reaches rootIds nodeIds edges reverse edge.target := by
  rw [computeReach]
  by_cases hroots : rootIds = []
  · subst hroots
    simp [Reaches]
  · rw [if_neg (mt List.eq_nil_of_length_eq_zero hroots)]
    refine ⟨iff_of_true rfl hroots, fun id => ?_, fun id => ?_⟩
    · rw [mem_foldl_union]
      cases direction <;>
        simp [mem_closure_iff, TraceDirection.Asks]
    · rw [mem_edgesWithin]
      cases direction <;>
        simp [mem_closure_iff, TraceDirection.Asks]

/-! ## Route -/

theorem Walk.append {a b c : String} {walk rest : List TraceEdge} (h : Walk nodeIds edges a walk b)
    (hrest : Walk nodeIds edges b rest c) : Walk nodeIds edges a (walk ++ rest) c := by
  induction h with
  | nil _ => exact hrest
  | cons hedge hdrawn _ ih => exact .cons hedge hdrawn (ih hrest)

/-- A walk splits at every node it passes. -/
theorem Walk.split {a b id : String} {walk : List TraceEdge} (h : Walk nodeIds edges a walk b)
    (hid : OnWalk a walk id) :
    ∃ before after, Walk nodeIds edges a before id ∧ Walk nodeIds edges id after b := by
  induction h with
  | nil hmem =>
      rcases hid with rfl | ⟨_, hedge, _⟩
      · exact ⟨[], [], .nil hmem, .nil hmem⟩
      · cases hedge
  | @cons edge walk b hedge hdrawn hwalk ih =>
      rcases hid with rfl | ⟨other, hother, rfl⟩
      · exact ⟨[], edge :: walk, .nil hdrawn.1, .cons hedge hdrawn hwalk⟩
      · have hon : OnWalk edge.target walk other.target := by
          rcases List.mem_cons.mp hother with rfl | hother
          · exact .inl rfl
          · exact .inr ⟨other, hother, rfl⟩
        obtain ⟨before, after, hbefore, hafter⟩ := ih hon
        exact ⟨edge :: before, after, .cons hedge hdrawn hbefore, hafter⟩

/-- A walk passes both ends of every edge of it. -/
theorem Walk.ends {a b : String} {walk : List TraceEdge} (h : Walk nodeIds edges a walk b)
    {edge : TraceEdge} (hedge : edge ∈ walk) :
    edge ∈ edges ∧ OnWalk a walk edge.source ∧ OnWalk a walk edge.target := by
  induction h with
  | nil _ => cases hedge
  | @cons first walk b hfirst hdrawn _ ih =>
      rcases List.mem_cons.mp hedge with rfl | hrest
      · exact ⟨hfirst, .inl rfl, .inr ⟨edge, List.mem_cons_self, rfl⟩⟩
      · obtain ⟨hmem, hsource, htarget⟩ := ih hrest
        have hlift : ∀ id, OnWalk first.target walk id → OnWalk first.source (first :: walk) id := by
          rintro id (rfl | ⟨other, hother, rfl⟩)
          · exact .inr ⟨first, List.mem_cons_self, rfl⟩
          · exact .inr ⟨other, List.mem_cons_of_mem _ hother, rfl⟩
        exact ⟨hmem, hlift _ hsource, hlift _ htarget⟩

/-- Forwards, a walk is a path of steps. -/
theorem follows_iff_walk {a b : String} (ha : a ∈ nodeIds) :
    ReflTransGen (Follows nodeIds edges false) a b ↔ ∃ walk, Walk nodeIds edges a walk b := by
  constructor
  · intro hpath
    induction hpath with
    | refl => exact ⟨[], .nil ha⟩
    | tail _ hstep ih =>
        obtain ⟨walk, hwalk⟩ := ih
        obtain ⟨edge, hedge, hdrawn, hends⟩ := hstep
        cases hends
        exact ⟨_, hwalk.append (.cons hedge hdrawn (.nil hdrawn.2))⟩
  · rintro ⟨walk, hwalk⟩
    induction hwalk with
    | nil _ => exact .refl
    | cons hedge hdrawn _ ih => exact .head ⟨_, hedge, hdrawn, rfl⟩ (ih hdrawn.2)

/-- Backwards, a path leads where a walk comes from. -/
theorem follows_reverse_iff {a b : String} :
    ReflTransGen (Follows nodeIds edges true) b a ↔
      ReflTransGen (Follows nodeIds edges false) a b := by
  have hswap : Follows nodeIds edges true = Function.swap (Follows nodeIds edges false) := by
    funext a b
    simp only [Follows, TraceEdge.ends, Function.swap, if_true, Bool.false_eq_true, if_false,
      Prod.mk.injEq, and_comm]
  rw [hswap, Relation.reflTransGen_swap]

theorem reaches_singleton {a id : String} (ha : a ∈ nodeIds) (reverse : Bool) :
    Reaches [a] nodeIds edges reverse id ↔
      ReflTransGen (Follows nodeIds edges reverse) a id := by
  simp [Reaches, ha]

theorem Walk.on_start {a b : String} {walk : List TraceEdge} (h : Walk nodeIds edges a walk b) :
    a ∈ nodeIds := by
  cases h with
  | nil hmem => exact hmem
  | cons _ hdrawn _ => exact hdrawn.1

/-- A walk passes its end. -/
theorem Walk.on_end {a b : String} {walk : List TraceEdge} (h : Walk nodeIds edges a walk b) :
    b ∈ nodeIds ∧ OnWalk a walk b := by
  induction h with
  | nil hmem => exact ⟨hmem, .inl rfl⟩
  | @cons edge walk b _ _ _ ih =>
      refine ⟨ih.1, .inr ?_⟩
      rcases ih.2 with rfl | ⟨other, hother, hb⟩
      · exact ⟨edge, List.mem_cons_self, rfl⟩
      · exact ⟨other, List.mem_cons_of_mem _ hother, hb⟩

theorem OnWalk.append {a id : String} {walk : List TraceEdge} (h : OnWalk a walk id)
    (rest : List TraceEdge) : OnWalk a (walk ++ rest) id := by
  rcases h with rfl | ⟨edge, hedge, rfl⟩
  · exact .inl rfl
  · exact .inr ⟨edge, List.mem_append_left _ hedge, rfl⟩

/-- What both closures hold is what some walk passes. -/
theorem between_iff {a b id : String} (ha : a ∈ nodeIds) :
    (ReflTransGen (Follows nodeIds edges false) a id ∧
      ReflTransGen (Follows nodeIds edges true) b id) ↔
    ∃ walk, Walk nodeIds edges a walk b ∧ OnWalk a walk id := by
  rw [follows_reverse_iff, follows_iff_walk ha]
  constructor
  · rintro ⟨⟨before, hbefore⟩, hafter⟩
    obtain ⟨hid, hon⟩ := hbefore.on_end
    obtain ⟨after, hafter⟩ := (follows_iff_walk hid).mp hafter
    exact ⟨before ++ after, hbefore.append hafter, hon.append after⟩
  · rintro ⟨walk, hwalk, hon⟩
    obtain ⟨before, after, hbefore, hafter⟩ := hwalk.split hon
    exact ⟨⟨before, hbefore⟩, (follows_iff_walk hbefore.on_end.1).mpr ⟨after, hafter⟩⟩

/-- An edge between two nodes of the route lies on a walk: the walk to its
source, the edge, and the walk from its target. -/
theorem edge_between_iff {a b : String} {edge : TraceEdge} (hedge : edge ∈ edges) :
    ((∃ walk, Walk nodeIds edges a walk b ∧ OnWalk a walk edge.source) ∧
      ∃ walk, Walk nodeIds edges a walk b ∧ OnWalk a walk edge.target) ↔
    ∃ walk, Walk nodeIds edges a walk b ∧ edge ∈ walk := by
  constructor
  · rintro ⟨⟨walk, hwalk, hsource⟩, ⟨walk', hwalk', htarget⟩⟩
    obtain ⟨before, _, hbefore, _⟩ := hwalk.split hsource
    obtain ⟨_, after, _, hafter⟩ := hwalk'.split htarget
    have hdrawn : edge.Drawn nodeIds := ⟨hbefore.on_end.1, hafter.on_start⟩
    exact ⟨before ++ edge :: after, hbefore.append (.cons hedge hdrawn hafter),
      List.mem_append_right _ List.mem_cons_self⟩
  · rintro ⟨walk, hwalk, hmem⟩
    obtain ⟨_, hsource, htarget⟩ := hwalk.ends hmem
    exact ⟨⟨walk, hwalk, hsource⟩, ⟨walk, hwalk, htarget⟩⟩

/-- The route between two nodes is what lies on the walks from the one to
the other, and it is found if there is one. -/
theorem computeRoute_exact {fromId toId : String} {nodeIds : List String}
    (edges : List TraceEdge) (hfrom : fromId ∈ nodeIds) (hto : toId ∈ nodeIds)
    (hne : fromId ≠ toId) :
    ((computeRoute fromId toId nodeIds edges).found = true ↔
      ∃ walk, Walk nodeIds edges fromId walk toId) ∧
    (∀ id, id ∈ (computeRoute fromId toId nodeIds edges).highlightedNodeIds ↔
      ∃ walk, Walk nodeIds edges fromId walk toId ∧ OnWalk fromId walk id) ∧
    ∀ id, id ∈ (computeRoute fromId toId nodeIds edges).highlightedEdgeIds ↔
      ∃ walk, Walk nodeIds edges fromId walk toId ∧ ∃ edge ∈ walk, edge.id = id := by
  have hdown : ∀ id, id ∈ closure [fromId] nodeIds (buildAdjacency nodeIds edges false) ↔
      ReflTransGen (Follows nodeIds edges false) fromId id := fun id => by
    rw [mem_closure_iff, reaches_singleton hfrom]
  have hup : ∀ id, id ∈ closure [toId] nodeIds (buildAdjacency nodeIds edges true) ↔
      ReflTransGen (Follows nodeIds edges true) toId id := fun id => by
    rw [mem_closure_iff, reaches_singleton hto]
  rw [computeRoute, if_neg (not_or.mpr ⟨not_not.mpr hfrom, not_not.mpr hto⟩), if_neg hne]
  by_cases hreach : ∃ walk, Walk nodeIds edges fromId walk toId
  · have hmem := (hdown toId).mpr ((follows_iff_walk hfrom).mpr hreach)
    -- a node is between the two when it is reached from one and reaches the other
    have hnode : ∀ id, id ∈ closure [fromId] nodeIds (buildAdjacency nodeIds edges false) ∩
        closure [toId] nodeIds (buildAdjacency nodeIds edges true) ↔
        ∃ walk, Walk nodeIds edges fromId walk toId ∧ OnWalk fromId walk id := fun id => by
      rw [Finset.mem_inter, hdown, hup, between_iff hfrom]
    rw [if_neg (not_not.mpr hmem)]
    refine ⟨iff_of_true rfl hreach, hnode, fun id => ?_⟩
    rw [mem_edgesWithin]
    constructor
    · rintro ⟨edge, hedge, hid, set, hset, hends⟩
      rw [List.mem_singleton.mp hset, hnode, hnode, edge_between_iff hedge] at hends
      obtain ⟨walk, hwalk, hmem⟩ := hends
      exact ⟨walk, hwalk, edge, hmem, hid⟩
    · rintro ⟨walk, hwalk, edge, hmem, hid⟩
      obtain ⟨hedge, _, _⟩ := hwalk.ends hmem
      refine ⟨edge, hedge, hid, _, List.mem_singleton_self _, ?_⟩
      rw [hnode, hnode, edge_between_iff hedge]
      exact ⟨walk, hwalk, hmem⟩
  · have hmem : toId ∉ closure [fromId] nodeIds (buildAdjacency nodeIds edges false) :=
      fun h => hreach ((follows_iff_walk hfrom).mp ((hdown toId).mp h))
    have hnone : ∀ (q : List TraceEdge → Prop) (p : Prop), (p ↔ False) →
        (p ↔ ∃ walk, Walk nodeIds edges fromId walk toId ∧ q walk) := fun q p hp =>
      hp.trans (iff_of_false id fun ⟨walk, hwalk, _⟩ => hreach ⟨walk, hwalk⟩)
    rw [if_pos hmem]
    exact ⟨iff_of_false Bool.false_ne_true hreach,
      fun id => hnone _ _ (iff_false_intro (Finset.notMem_empty id)),
      fun id => hnone _ _ (iff_false_intro (Finset.notMem_empty id))⟩

/-- The reach is the closures the direction asks for, the route all that
lies on a walk; without a walk nothing is highlighted. -/
theorem path_tracing_exact (nodeIds : List String) (edges : List TraceEdge) :
    (∀ rootIds direction,
      (∀ id, id ∈ (computeReach rootIds nodeIds edges direction).highlightedNodeIds ↔
        ∃ reverse, direction.Asks reverse ∧ Reaches rootIds nodeIds edges reverse id) ∧
      ∀ id, id ∈ (computeReach rootIds nodeIds edges direction).highlightedEdgeIds ↔
        ∃ edge ∈ edges, edge.id = id ∧ ∃ reverse, direction.Asks reverse ∧
          Reaches rootIds nodeIds edges reverse edge.source ∧
          Reaches rootIds nodeIds edges reverse edge.target) ∧
    ∀ fromId toId, fromId ∈ nodeIds → toId ∈ nodeIds → fromId ≠ toId →
      ((computeRoute fromId toId nodeIds edges).found = true ↔
        ∃ walk, Walk nodeIds edges fromId walk toId) ∧
      (∀ id, id ∈ (computeRoute fromId toId nodeIds edges).highlightedNodeIds ↔
        ∃ walk, Walk nodeIds edges fromId walk toId ∧ OnWalk fromId walk id) ∧
      (∀ id, id ∈ (computeRoute fromId toId nodeIds edges).highlightedEdgeIds ↔
        ∃ walk, Walk nodeIds edges fromId walk toId ∧ ∃ edge ∈ walk, edge.id = id) ∧
      ((computeRoute fromId toId nodeIds edges).found = false →
        (computeRoute fromId toId nodeIds edges).highlightedNodeIds = ∅ ∧
        (computeRoute fromId toId nodeIds edges).highlightedEdgeIds = ∅) := by
  refine ⟨fun rootIds direction => (computeReach_exact rootIds nodeIds edges direction).2,
    fun fromId toId hfrom hto hne => ?_⟩
  obtain ⟨hfound, hnodes, hedges⟩ := computeRoute_exact edges hfrom hto hne
  refine ⟨hfound, hnodes, hedges, fun hnone => ?_⟩
  have hwalk : ∀ walk, ¬ Walk nodeIds edges fromId walk toId := fun walk hwalk => by
    rw [hfound.mpr ⟨walk, hwalk⟩] at hnone
    cases hnone
  exact ⟨Finset.eq_empty_of_forall_notMem fun id hid =>
      have ⟨walk, h, _⟩ := (hnodes id).mp hid
      hwalk walk h,
    Finset.eq_empty_of_forall_notMem fun id hid =>
      have ⟨walk, h, _⟩ := (hedges id).mp hid
      hwalk walk h⟩

def ab : TraceEdge := ⟨"ab", "a", "b"⟩

def ba : TraceEdge := ⟨"ba", "b", "a"⟩

/-- Around a cycle the route holds the edge back as well. -/
theorem path_tracing_exact_cycle :
    (computeRoute "a" "b" ["a", "b"] [ab, ba]).found = true ∧
    "ba" ∈ (computeRoute "a" "b" ["a", "b"] [ab, ba]).highlightedEdgeIds := by
  have hexact := (path_tracing_exact ["a", "b"] [ab, ba]).2 "a" "b" (by decide) (by decide)
    (by decide)
  have hthere : Walk ["a", "b"] [ab, ba] "a" [ab] "b" :=
    @Walk.cons _ _ ab _ _ (by decide) (by decide) (.nil (by decide))
  have hround : Walk ["a", "b"] [ab, ba] "a" [ab, ba, ab] "b" :=
    @Walk.cons _ _ ab _ _ (by decide) (by decide)
      (@Walk.cons _ _ ba _ _ (by decide) (by decide) hthere)
  exact ⟨hexact.1.mpr ⟨_, hthere⟩, (hexact.2.2.1 _).mpr ⟨_, hround, ba, by decide, rfl⟩⟩

end EmergentFlow.Tracing
