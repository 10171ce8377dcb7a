import EmergentFlow.Lib.Runs
import EmergentFlow.Server.Flows

/-!
# Server — FlowLibrary

What the flow routes keep over every history of requests: which request may
change, move or remove which flow, and what reading one returns. The one
request that takes a flow away from under its slug without being addressed
to it is `create_flow`, which saves under a slug that may be taken.
-/

namespace EmergentFlow

variable {renders : Json → Bool} {s : FlowStore} {c : FlowCall}

/-! ## What one request does -/

/-- What a request can do to the flows, with its answer. -/
inductive FlowCall.Effect (s : FlowStore) (c : FlowCall) : FlowResponse → Dict Slug Json → Prop
  | failed (status : Nat) (failure : FlowFailure) : Effect s c (.error status failure) s.flows
  | read {slug : Slug} {graph : Json} (hrequest : c.request = .get_flow slug.1)
      (hget : s.flows.get? slug = some graph) : Effect s c (.content graph) s.flows
  | create {body : Option Json} {slug : Slug} {graph : Json}
      (hrequest : c.request = .create_flow body) (hbody : created body = .ok (slug.1, graph))
      (hfault : c.fault = none) :
      Effect s c (.saved slug) (s.flows.set slug graph)
  | update {body : Option Json} {slug : Slug} {graph : Json}
      (hrequest : c.request = .update_flow slug.1 body) (hbody : body_graph body = .ok graph) :
      Effect s c (.saved slug) (s.flows.set slug graph)
  | delete {slug : Slug} (hrequest : c.request = .delete_flow slug.1) :
      Effect s c .deleted (s.flows.erase slug)
  | rename_self {body : Option Json} {slug : Slug} (hrequest : c.request = .rename_flow slug.1 body) :
      Effect s c (.saved slug) s.flows
  | rename {body : Option Json} {old new : Slug} {graph : Json}
      (hrequest : c.request = .rename_flow old.1 body) (hold : s.flows.get? old = some graph)
      (hnew : s.flows.get? new = none) (hne : new ≠ old) :
      Effect s c (.saved new) ((s.flows.erase old).set new graph)

namespace FlowStore

open Transaction

theorem path_eq_ok {slug : String} {s s' : FlowStore} {k : Slug} :
    path slug s = (.ok k, s') ↔ k.1 = slug ∧ s' = s := by
  unfold path
  by_cases h : slug_re slug = true
  · rw [dif_pos h, pure_apply, Prod.mk.injEq, Except.ok.injEq]
    exact ⟨fun ⟨hk, hs⟩ => ⟨by rw [← hk], hs.symm⟩, fun ⟨hk, hs⟩ => ⟨Subtype.ext hk.symm, hs.symm⟩⟩
  · rw [dif_neg h, raise_apply]
    refine ⟨fun heq => (nomatch heq), fun ⟨hk, _⟩ => absurd k.2 ?_⟩
    rwa [hk]

theorem path_reads (slug : String) : Reads (path slug) := by
  unfold path
  by_cases h : slug_re slug = true
  · rw [dif_pos h]
    exact Reads.pure _
  · rw [dif_neg h]
    exact Reads.raise _

theorem last_call_eq_ok {fault : Option Fault} {f : FlowStore → FlowStore} {s s' : FlowStore}
    {u : Unit} : last_call fault f s = (.ok u, s') ↔ fault = none ∧ s' = f s := by
  simp only [last_call, bind_eq_ok, check_eq_ok, write_eq_ok, Option.isNone_iff_eq_none]
  exact ⟨fun ⟨⟨⟩, _, ⟨hnone, hs⟩, hf⟩ => ⟨hnone, by rw [hf, hs]⟩,
    fun ⟨hnone, hf⟩ => ⟨(), s, ⟨hnone, rfl⟩, hf⟩⟩

theorem last_call_atomic (fault : Option Fault) (f : FlowStore → FlowStore) :
    Atomic (last_call fault f) :=
  (Reads.check _ _).bind_atomic fun _ => (Total.write f).atomic

theorem get_eq_ok {fault : Option Fault} {slug : String} {s s' : FlowStore} {graph : Json} :
    get fault slug s = (.ok graph, s') ↔
      fault = none ∧ s' = s ∧ ∃ k : Slug, k.1 = slug ∧ s.flows.get? k = some graph := by
  simp only [get, bind_eq_ok, path_eq_ok, check_eq_ok, read_apply, Option.isNone_iff_eq_none]
  constructor
  · rintro ⟨k, t, ⟨hk, rfl⟩, ⟨⟩, t', ⟨hnone, rfl⟩, t'', _, heq, h⟩
    cases heq
    cases hget : t'.flows.get? k with
    | none =>
        rw [hget] at h
        cases h
    | some graph' =>
        rw [hget] at h
        cases h
        exact ⟨hnone, rfl, k, hk, hget⟩
  · rintro ⟨hnone, rfl, k, hk, hget⟩
    refine ⟨k, s', ⟨hk, rfl⟩, (), s', ⟨hnone, rfl⟩, s', s', rfl, ?_⟩
    rw [hget]
    rfl

theorem get_reads (fault : Option Fault) (slug : String) : Reads (get fault slug) := by
  refine (path_reads slug).bind fun k => (Reads.check _ _).bind fun _ => Reads.read.bind fun s => ?_
  cases s.flows.get? k with
  | none => exact Reads.raise _
  | some graph => exact Reads.pure _

/-- A `save` that returns has written the flow; one that raises has written
at most the temporary file. -/
theorem save_cases (fault : Option Fault) (random slug : String) (graph : Json) (s : FlowStore) :
    (∃ k : Slug, k.1 = slug ∧ fault = none ∧
      save fault random slug graph s = (.ok k, { s with flows := s.flows.set k graph })) ∨
    (∃ e s', save fault random slug graph s = (.error e, s') ∧ s'.flows = s.flows ∧
      (fault = none → slug_re slug = false)) := by
  by_cases h : slug_re slug = true
  · have hpath : path slug s = (.ok ⟨slug, h⟩, s) := path_eq_ok.mpr ⟨rfl, rfl⟩
    rw [save, bind_of_ok hpath]
    cases fault with
    | none => exact .inl ⟨⟨slug, h⟩, rfl, rfl, rfl⟩
    | some fault =>
        cases fault with
        | access => exact .inr ⟨_, _, rfl, rfl, nofun⟩
        | write complete removed =>
            refine .inr ⟨_, _, rfl, ?_, nofun⟩
            unfold leave_temp
            split <;> rfl
  · have hpath : path slug s = (.error (.invalid_slug slug), s) := by
      rw [path, dif_neg h]
      rfl
    rw [save, bind_eq_error.mpr (.inl hpath)]
    exact .inr ⟨_, _, rfl, rfl, fun _ => Bool.eq_false_iff.mpr h⟩

theorem delete_eq_ok {fault : Option Fault} {slug : String} {s s' : FlowStore} {u : Unit}
    (h : delete fault slug s = (.ok u, s')) :
    ∃ k : Slug, k.1 = slug ∧ s' = { s with flows := s.flows.erase k } := by
  simp only [delete, accessible, bind_eq_ok, path_eq_ok, check_eq_ok, read_apply,
    last_call_eq_ok] at h
  obtain ⟨k, _, ⟨hk, rfl⟩, ⟨⟩, _, ⟨-, rfl⟩, _, _, heq, ⟨⟩, _, ⟨-, rfl⟩, -, rfl⟩ := h
  cases heq
  exact ⟨k, hk, rfl⟩

theorem delete_atomic (fault : Option Fault) (slug : String) : Atomic (delete fault slug) :=
  (path_reads slug).bind_atomic fun _ => (Reads.check _ _).bind_atomic fun _ =>
    Reads.read.bind_atomic fun _ => (Reads.check _ _).bind_atomic fun _ => last_call_atomic _ _

theorem rename_eq_ok {fault : Option Fault} {old_slug new_slug : String} {s s' : FlowStore}
    {new : Slug} (h : rename fault old_slug new_slug s = (.ok new, s')) :
    ∃ (old : Slug) (graph : Json), old.1 = old_slug ∧ new.1 = new_slug ∧
      s.flows.get? old = some graph ∧
      ((new = old ∧ s' = s) ∨ (new ≠ old ∧ s.flows.get? new = none ∧
        s' = { s with flows := (s.flows.erase old).set new graph })) := by
  simp only [rename, accessible, bind_eq_ok, path_eq_ok, check_eq_ok, read_apply] at h
  obtain ⟨old, _, ⟨hold, rfl⟩, new', _, ⟨hnew, rfl⟩, ⟨⟩, t, ⟨-, rfl⟩, _, _, heq, h⟩ := h
  cases heq
  cases hget : t.flows.get? old with
  | none =>
      rw [hget] at h
      cases h
  | some graph =>
      simp only [hget] at h
      by_cases hself : new' = old
      · rw [if_pos hself] at h
        cases h
        exact ⟨old, graph, hold, hnew, hget, .inl ⟨hself, rfl⟩⟩
      · rw [if_neg hself] at h
        simp only [bind_eq_ok, check_eq_ok, last_call_eq_ok, pure_apply] at h
        obtain ⟨⟨⟩, _, ⟨hfree, rfl⟩, ⟨⟩, _, ⟨-, rfl⟩, heq⟩ := h
        cases heq
        rw [Bool.not_eq_true', Dict.not_contains_iff] at hfree
        exact ⟨old, graph, hold, hnew, hget, .inr ⟨hself, hfree, rfl⟩⟩

theorem rename_atomic (fault : Option Fault) (old_slug new_slug : String) :
    Atomic (rename fault old_slug new_slug) := by
  refine (path_reads _).bind_atomic fun old => (path_reads _).bind_atomic fun new =>
    (Reads.check _ _).bind_atomic fun _ => Reads.read.bind_atomic fun s => ?_
  cases s.flows.get? old with
  | none => exact (Reads.raise _).atomic
  | some graph =>
      simp only
      split
      · exact (Reads.pure _).atomic
      · refine (Reads.check _ _).bind_atomic fun _ => ?_
        intro s e s' h
        rcases bind_eq_error.mp h with h | ⟨_, _, -, h⟩
        · exact last_call_atomic _ _ s e s' h
        · cases h

end FlowStore

theorem answer_ok {α : Type} {x : Transaction FlowStore FlowError α} {ok : α → FlowResponse}
    {a : α} {s' : FlowStore} (h : x s = (.ok a, s')) : answer x ok s = (ok a, s') := by
  rw [answer, h]

theorem answer_error {α : Type} {x : Transaction FlowStore FlowError α} {ok : α → FlowResponse}
    {e : FlowError} {s' : FlowStore} (h : x s = (.error e, s')) :
    answer x ok s = (FlowFailure.response (.store e), s') := by
  rw [answer, h]

/-- Every request has one of the effects. -/
theorem FlowStore.call_effect (renders : Json → Bool) (s : FlowStore) (c : FlowCall) :
    c.Effect s (s.call renders c).1 (s.call renders c).2.flows := by
  -- an error of the store leaves the flows as they were
  have hfailed : ∀ {failure : FlowFailure} {s' : FlowStore}, s'.flows = s.flows →
      c.Effect s failure.response s'.flows := by
    intro failure s' hs
    rw [hs]
    exact .failed _ _
  obtain ⟨request, fault, random⟩ := c
  cases request with
  | get_flow slug =>
      show FlowCall.Effect s _ (answer _ _ s).1 (answer _ _ s).2.flows
      rcases hx : get fault slug s with ⟨e | graph, s'⟩
      · rw [answer_error hx]
        exact hfailed (by rw [(get_reads fault slug).atomic _ _ _ hx])
      · obtain ⟨-, rfl, k, rfl, hget⟩ := get_eq_ok.mp hx
        rw [answer_ok hx]
        simp only
        split
        · exact .read rfl hget
        · exact .failed _ _
  | create_flow body =>
      simp only [FlowStore.call]
      cases hbody : created body with
      | error failure => exact .failed _ _
      | ok saved =>
          obtain ⟨slug, graph⟩ := saved
          simp only
          rcases save_cases fault random slug graph s with ⟨k, rfl, hfault, hx⟩ | ⟨e, s', hx, hs, -⟩
          · rw [answer_ok hx]
            exact .create rfl hbody hfault
          · rw [answer_error hx]
            exact hfailed hs
  | update_flow slug body =>
      simp only [FlowStore.call]
      cases hbody : body_graph body with
      | error failure => exact .failed _ _
      | ok graph =>
          simp only
          rcases save_cases fault random slug graph s with ⟨k, rfl, -, hx⟩ | ⟨e, s', hx, hs, -⟩
          · rw [answer_ok hx]
            exact .update rfl hbody
          · rw [answer_error hx]
            exact hfailed hs
  | delete_flow slug =>
      show FlowCall.Effect s _ (answer _ _ s).1 (answer _ _ s).2.flows
      rcases hx : delete fault slug s with ⟨e | u, s'⟩
      · rw [answer_error hx]
        exact hfailed (by rw [delete_atomic fault slug _ _ _ hx])
      · obtain ⟨k, rfl, rfl⟩ := delete_eq_ok hx
        rw [answer_ok hx]
        exact .delete rfl
  | rename_flow slug body =>
      simp only [FlowStore.call]
      cases hbody : body_new_slug body with
      | error failure => exact .failed _ _
      | ok new_slug =>
          simp only
          rcases hx : rename fault slug new_slug s with ⟨e | new, s'⟩
          · rw [answer_error hx]
            exact hfailed (by rw [rename_atomic fault slug new_slug _ _ _ hx])
          · rw [answer_ok hx]
            obtain ⟨old, graph, rfl, -, hold, ⟨rfl, rfl⟩ | ⟨hne, hfree, rfl⟩⟩ := rename_eq_ok hx
            · exact .rename_self rfl
            · exact .rename rfl hold hfree hne

/-! ## The laws -/

/-- What a request promises of the flows that are stored. -/
structure FlowsKept (s : FlowStore) (c : FlowCall) (r : FlowResponse) (s' : FlowStore) : Prop where
  /-- A flow changes by an update of its slug, and goes by a delete or a rename. -/
  kept : ∀ slug graph, s.flows.get? slug = some graph →
    s'.flows.get? slug = some graph ∨
    (∃ body new, c.request = .update_flow slug.1 body ∧ body_graph body = .ok new ∧
      r = .saved slug ∧ s'.flows.get? slug = some new) ∨
    (c.request = .delete_flow slug.1 ∧ r = .deleted ∧ s'.flows.get? slug = none) ∨
    (∃ body new, c.request = .rename_flow slug.1 body ∧ r = .saved new ∧
      s.flows.get? new = none ∧ s'.flows.get? slug = none ∧ s'.flows.get? new = some graph)
  /-- A new flow takes no slug that is taken, nor does a rename. -/
  created : ∀ body slug, c.request = .create_flow body → r = .saved slug →
    s.flows.get? slug = none
  renamed : ∀ old body new, c.request = .rename_flow old body → r = .saved new →
    new.1 = old ∨ s.flows.get? new = none
  failed : ∀ status failure, r = .error status failure → s'.flows = s.flows
  /-- A read returns the flow, unless the file system fails it. -/
  read : ∀ slug graph, c.request = .get_flow slug.1 → c.fault = none →
    s.flows.get? slug = some graph → r = .content graph
  returned : ∀ slug graph, c.request = .get_flow slug.1 → r = .content graph →
    s.flows.get? slug = some graph

/-- The condition: a new flow that can be saved finds its slug free, and a
flow that is read can be sent. -/
def FlowCall.Untaken (renders : Json → Bool) (s : FlowStore) (c : FlowCall) : Prop :=
  match c.request with
  | .create_flow body => ∀ slug : Slug, ∀ graph, c.fault = none →
      EmergentFlow.created body = .ok (slug.1, graph) → s.flows.get? slug = none
  | .get_flow slug => ∀ k : Slug, ∀ graph, k.1 = slug → c.fault = none →
      s.flows.get? k = some graph → renders graph = true
  | _ => True

/-- Reading a flow, when nothing fails. -/
theorem FlowStore.call_get {slug : Slug} {graph : Json} (hrequest : c.request = .get_flow slug.1)
    (hfault : c.fault = none) (hget : s.flows.get? slug = some graph) :
    (s.call renders c).1 =
      if renders graph then .content graph else FlowFailure.unhandled.response := by
  have hx : get c.fault slug.1 s = (.ok graph, s) :=
    get_eq_ok.mpr ⟨hfault, rfl, slug, rfl, hget⟩
  simp only [FlowStore.call, hrequest]
  rw [answer_ok hx]

/-- Creating a flow, when nothing fails. -/
theorem FlowStore.call_create {body : Option Json} {slug : Slug} {graph : Json}
    (hrequest : c.request = .create_flow body) (hfault : c.fault = none)
    (hbody : created body = .ok (slug.1, graph)) : (s.call renders c).1 = .saved slug := by
  simp only [FlowStore.call, hrequest, hbody]
  rcases save_cases c.fault c.random slug.1 graph s with ⟨k, hk, -, hx⟩ | ⟨e, s', -, -, hinvalid⟩
  · rw [answer_ok hx, Subtype.ext hk]
  · have hvalid := slug.2
    rw [hinvalid hfault] at hvalid
    cases hvalid

theorem FlowsKept.untaken (h : FlowsKept s c (s.call renders c).1 (s.call renders c).2) :
    c.Untaken renders s := by
  unfold FlowCall.Untaken
  split
  next body hrequest =>
    intro slug graph hfault hbody
    exact h.created body slug hrequest (FlowStore.call_create hrequest hfault hbody)
  next slug hrequest =>
    rintro k graph rfl hfault hget
    have hread := h.read k graph hrequest hfault hget
    rw [FlowStore.call_get hrequest hfault hget] at hread
    by_contra hrenders
    rw [if_neg hrenders] at hread
    cases hread
  next => trivial

/-- A flow is stored over only where the request names its slug. -/
theorem FlowCall.Untaken.kept (hfree : c.Untaken renders s) :
    FlowsKept s c (s.call renders c).1 (s.call renders c).2 := by
  have heffect := s.call_effect renders c
  have hread : ∀ slug graph, c.request = .get_flow slug.1 → c.fault = none →
      s.flows.get? slug = some graph → (s.call renders c).1 = .content graph := by
    intro slug graph hrequest hfault hget
    rw [FlowStore.call_get hrequest hfault hget]
    unfold FlowCall.Untaken at hfree
    rw [hrequest] at hfree
    rw [if_pos (hfree slug graph rfl hfault hget)]
  generalize (s.call renders c).1 = r at heffect hread ⊢
  generalize hs' : (s.call renders c).2 = s' at heffect ⊢
  generalize hflows : s'.flows = flows at heffect
  cases heffect with
  | failed status failure =>
      exact ⟨fun slug graph h => .inl (by rw [hflows, h]), nofun, nofun, fun _ _ _ => hflows,
        hread, nofun⟩
  | read hrequest hget =>
      refine ⟨fun slug graph h => .inl (by rw [hflows, h]), nofun, nofun, nofun, hread, ?_⟩
      intro slug graph hrequest' hr
      cases hr
      rw [hrequest] at hrequest'
      rw [← Subtype.ext (FlowRequest.get_flow.inj hrequest'), hget]
  | @create body slug graph hrequest hbody hfault =>
      unfold FlowCall.Untaken at hfree
      rw [hrequest] at hfree
      have hnew := hfree slug graph hfault hbody
      refine ⟨fun k old h => .inl ?_, ?_, ?_, nofun, hread, nofun⟩
      · rw [hflows, Dict.get?_set_ne, h]
        rintro rfl
        cases hnew.symm.trans h
      · intro _ _ _ hr
        cases hr
        exact hnew
      · intro old body' new hrequest'
        cases hrequest.symm.trans hrequest'
  | @update body slug graph hrequest hbody =>
      refine ⟨fun k old h => ?_, ?_, ?_, nofun, hread, nofun⟩
      · by_cases hk : slug = k
        · subst hk
          exact .inr (.inl ⟨body, graph, hrequest, hbody, rfl, by rw [hflows, Dict.get?_set_self]⟩)
        · exact .inl (by rw [hflows, Dict.get?_set_ne _ _ hk, h])
      · intro body' _ hrequest'
        cases hrequest.symm.trans hrequest'
      · intro old body' new hrequest'
        cases hrequest.symm.trans hrequest'
  | @delete slug hrequest =>
      refine ⟨fun k old h => ?_, nofun, nofun, nofun, hread, nofun⟩
      by_cases hk : slug = k
      · subst hk
        exact .inr (.inr (.inl ⟨hrequest, rfl, by rw [hflows, Dict.get?_erase_self]⟩))
      · exact .inl (by rw [hflows, Dict.get?_erase_ne _ hk, h])
  | @rename_self body slug hrequest =>
      refine ⟨fun k old h => .inl (by rw [hflows, h]), ?_, ?_, nofun, hread, nofun⟩
      · intro body' _ hrequest'
        cases hrequest.symm.trans hrequest'
      · intro old body' new hrequest' hr
        cases hr
        cases hrequest.symm.trans hrequest'
        exact .inl rfl
  | @rename body old new graph hrequest hold hnew hne =>
      refine ⟨fun k graph' h => ?_, ?_, ?_, nofun, hread, nofun⟩
      · have hk : new ≠ k := by
          rintro rfl
          cases hnew.symm.trans h
        -- the flow that is renamed goes, and stands under the new slug
        by_cases hmoved : old = k
        · subst hmoved
          cases hold.symm.trans h
          refine .inr (.inr (.inr ⟨body, new, hrequest, rfl, hnew, ?_, ?_⟩))
          · rw [hflows, Dict.get?_set_ne _ _ hk, Dict.get?_erase_self]
          · rw [hflows, Dict.get?_set_self]
        · exact .inl (by rw [hflows, Dict.get?_set_ne _ _ hk, Dict.get?_erase_ne _ hmoved, h])
      · intro body' _ hrequest'
        cases hrequest.symm.trans hrequest'
      · intro _ body' _ _ hr
        cases hr
        exact .inr hnew

/-- One request keeps the flows exactly when it meets the condition. -/
theorem FlowStore.call_kept_iff : FlowsKept s c (s.call renders c).1 (s.call renders c).2 ↔
    c.Untaken renders s :=
  ⟨FlowsKept.untaken, FlowCall.Untaken.kept⟩

/-! ## Histories -/

/-- The store after a request. -/
def FlowStore.next (renders : Json → Bool) (s : FlowStore) (c : FlowCall) : FlowStore :=
  (s.call renders c).2

/-- What was written last under each slug, after a request and its answer. -/
def FlowCall.written (c : FlowCall) (r : FlowResponse) (library : Slug → Option Json) :
    Slug → Option Json :=
  match c.request, r with
  | .create_flow body, .saved slug =>
      match EmergentFlow.created body with
      | .ok (_, graph) => Function.update library slug (some graph)
      | .error _ => library
  | .update_flow _ body, .saved slug =>
      match body_graph body with
      | .ok graph => Function.update library slug (some graph)
      | .error _ => library
  | .delete_flow slug, .deleted => fun k => if k.1 = slug then none else library k
  | .rename_flow old _, .saved new =>
      if new.1 = old then library
      else fun k =>
        if k = new then (if h : slug_re old = true then library ⟨old, h⟩ else none)
        else if k.1 = old then none else library k
  | _, _ => library

/-- What was written last under each slug, after a history. -/
def last_written (renders : Json → Bool) (s : FlowStore) (library : Slug → Option Json) :
    List FlowCall → Slug → Option Json
  | [] => library
  | c :: calls =>
      last_written renders (s.next renders c) (c.written (s.call renders c).1 library) calls

theorem FlowCall.Effect.written {r : FlowResponse} {flows : Dict Slug Json}
    (h : c.Effect s r flows) : flows.get? = c.written r s.flows.get? := by
  funext k
  obtain ⟨request, fault, random⟩ := c
  cases h with
  | failed status failure => cases request <;> rfl
  | read hrequest hget =>
      cases hrequest
      rfl
  | create hrequest hbody hfault =>
      cases hrequest
      simp only [FlowCall.written, hbody, Dict.get?_set, Function.update_apply, eq_comm]
  | update hrequest hbody =>
      cases hrequest
      simp only [FlowCall.written, hbody, Dict.get?_set, Function.update_apply, eq_comm]
  | delete hrequest =>
      cases hrequest
      simp only [FlowCall.written, Dict.get?_erase, Subtype.ext_iff, eq_comm]
  | rename_self hrequest =>
      cases hrequest
      simp only [FlowCall.written, if_true]
  | @rename body old new graph hrequest hold hnew hne =>
      have hne' : new.1 ≠ old.1 := fun heq => hne (Subtype.ext heq)
      cases hrequest
      simp only [FlowCall.written, if_neg hne', dif_pos old.2, hold, Dict.get?_set,
        Dict.get?_erase, @eq_comm _ new, @eq_comm _ old, Subtype.ext_iff]

/-- The store holds what was written last. -/
theorem last_written_eq (renders : Json → Bool) (s : FlowStore) (calls : List FlowCall) :
    last_written renders s s.flows.get? calls =
      (Runs.run (FlowStore.next renders) s calls).flows.get? := by
  induction calls generalizing s with
  | nil => rfl
  | cons c calls ih =>
      rw [last_written, ← (s.call_effect renders c).written]
      exact ih (s.next renders c)

/-- Over a whole history: every request keeps the flows, and at every moment
each slug reads as what was written to it last. -/
def FlowLibraryKept (renders : Json → Bool) (s : FlowStore) (calls : List FlowCall) : Prop :=
  Runs.AllSteps (FlowStore.next renders)
    (fun t c => FlowsKept t c (t.call renders c).1 (t.next renders c)) s calls ∧
  ∀ pre post, calls = pre ++ post →
    (Runs.run (FlowStore.next renders) s pre).flows.get? =
      last_written renders s s.flows.get? pre

/-- A history keeps the library exactly when no new flow that can be saved
is filed under a taken slug and every flow that is read can be sent. -/
theorem flow_library_kept_iff (renders : Json → Bool) (s : FlowStore) (calls : List FlowCall) :
    FlowLibraryKept renders s calls ↔
      Runs.AllSteps (FlowStore.next renders) (fun t c => c.Untaken renders t) s calls := by
  constructor
  · rintro ⟨hkept, -⟩ pre c post hsplit
    exact FlowStore.call_kept_iff.mp (hkept pre c post hsplit)
  · intro hfree
    refine ⟨fun pre c post hsplit => FlowStore.call_kept_iff.mpr (hfree pre c post hsplit), ?_⟩
    exact fun pre post _ => (last_written_eq renders s pre).symm

/-- Two new flows whose names share a slug. -/
def same_slug : List FlowCall :=
  [{ request := .create_flow (some (.obj [("graph", .obj [("name", .str "My flow")])])) },
    { request := .create_flow (some (.obj [("graph", .obj [("name", .str "my flow!")])])) }]

/-- The second is saved over the first. -/
theorem same_slug_not_kept : ¬ FlowLibraryKept (fun _ => true) {} same_slug := by
  rintro ⟨hkept, -⟩
  have hfree := (hkept [same_slug[0]] same_slug[1] [] rfl).created _ ⟨"my-flow", rfl⟩ rfl rfl
  cases hfree

end EmergentFlow
