import EmergentFlow.Collab.Records

/-!
# Collab — AppendOnly

Whether the reviews and gates of a session are append-only over any
sequence of requests. Closing, skipping, deciding and commenting only add;
opening a gate or adding a review under an id in use replaces the record
that is there, and `RecordRequest.Additive` says when that loses nothing.
-/

namespace EmergentFlow

open Transaction

variable {Sub Diag : Type}

/-! ## Requests -/

/-- A request on the reviews or gates of a session. -/
inductive RecordRequest (Sub Diag : Type) where
  | add_review (session_id : String) (thread : ReviewThread Sub Diag)
  | add_review_comment (session_id review_id : String) (comment : ReviewComment)
  | open_gate (session_id : String) (gate : Gate)
  | close_gate (session_id gate_id : String)
  | skip_gate (session_id gate_id : String)
  | add_decision (session_id gate_id : String) (decision : Decision)

namespace RecordRequest

def run : RecordRequest Sub Diag → CollabStore.CollabM Sub Diag Unit
  | .add_review sid thread => CollabStore.add_review sid thread
  | .add_review_comment sid rid comment => CollabStore.add_review_comment sid rid comment
  | .open_gate sid gate => CollabStore.open_gate sid gate
  | .close_gate sid gid => CollabStore.close_gate sid gid
  | .skip_gate sid gid => CollabStore.skip_gate sid gid
  | .add_decision sid gid decision => CollabStore.add_decision sid gid decision

def session_id : RecordRequest Sub Diag → String
  | .add_review sid _ | .add_review_comment sid _ _ | .open_gate sid _ | .close_gate sid _
  | .skip_gate sid _ | .add_decision sid _ _ => sid

/-- The store after a request, whether it returned or raised. -/
def after (st : CollabStore Sub Diag) (r : RecordRequest Sub Diag) : CollabStore Sub Diag :=
  (r.run st).2

def returns (st : CollabStore Sub Diag) (r : RecordRequest Sub Diag) : Bool :=
  (r.run st).1.isOk

/-- What a request that returns does to the records. -/
def effect : RecordRequest Sub Diag → CollaborationState Sub Diag → CollaborationState Sub Diag
  | .add_review _ thread => fun c => { c with reviews := c.reviews.set thread.id thread }
  | .add_review_comment _ rid comment => fun c => { c with
      reviews := c.reviews.modify rid fun t => { t with comments := t.comments ++ [comment] } }
  | .open_gate _ gate => fun c => { c with
      gates := c.gates.set gate.id { gate with status := .OPEN } }
  | .close_gate _ gid => fun c => { c with
      gates := c.gates.modify gid fun g => { g with status := .CLOSED } }
  | .skip_gate _ gid => fun c => { c with
      gates := c.gates.modify gid fun g => { g with status := .SKIPPED } }
  | .add_decision _ gid decision => fun c => { c with
      gates := c.gates.modify gid fun g => { g with decisions := g.decisions ++ [decision] } }

/-- What the method of a request has checked when it returns: a gate is
only resolved while it is open. -/
def Checked : RecordRequest Sub Diag → CollaborationState Sub Diag → Prop
  | .close_gate _ gid, c | .skip_gate _ gid, c =>
      ∃ g, c.gates.get? gid = some g ∧ g.status = .OPEN
  | _, _ => True

end RecordRequest

/-! ## What a request does -/

theorem get_gate_eq_ok {s : CollabSession Sub Diag} {gid : String} {g : Gate} :
    CollabStore.get_gate s gid = .ok g ↔ s.collab.gates.get? gid = some g := by
  rw [CollabStore.get_gate, Checks.require_eq_ok]

theorem resolve_gate_spec {sid gid : String} {status : GateStatus} {event : CollabEvent}
    {st st' : CollabStore Sub Diag}
    (h : CollabStore.resolve_gate sid gid status event st = (.ok (), st')) :
    ∃ s g, st.sessions.get? sid = some s ∧ s.collab.gates.get? gid = some g ∧
      g.status = .OPEN ∧ CollabStore.Updated sid (fun c => { c with
        gates := c.gates.modify gid fun g => { g with status := status } }) st st' := by
  simp only [CollabStore.resolve_gate, bind_eq_ok (x := CollabStore.get sid),
    CollabStore.get_eq_ok, bind_eq_ok (x := lift _), lift_eq_ok, get_gate_eq_ok,
    bind_eq_ok (x := check _ _), check_eq_ok, decide_eq_true_eq] at h
  obtain ⟨s, _, ⟨hs, rfl⟩, g, _, ⟨hg, rfl⟩, _, _, ⟨hopen, rfl⟩, h⟩ := h
  exact ⟨s, g, hs, hg, hopen, CollabStore.updated_of_assign h⟩

/-- A request that returns has passed its checks and has its effect. -/
theorem RecordRequest.run_spec {r : RecordRequest Sub Diag} {st st' : CollabStore Sub Diag}
    (h : r.run st = (.ok (), st')) :
    ∃ s, st.sessions.get? r.session_id = some s ∧ r.Checked s.collab ∧
      CollabStore.Updated r.session_id r.effect st st' := by
  cases r with
  | add_review sid thread =>
      simp only [RecordRequest.run, CollabStore.add_review, bind_eq_ok (x := CollabStore.get sid),
        CollabStore.get_eq_ok, bind_eq_ok (x := lift _), lift_eq_ok] at h
      obtain ⟨s, _, ⟨hs, rfl⟩, _, _, ⟨-, rfl⟩, h⟩ := h
      exact ⟨s, hs, trivial, CollabStore.updated_of_assign h⟩
  | add_review_comment sid rid comment =>
      simp only [RecordRequest.run, CollabStore.add_review_comment,
        bind_eq_ok (x := CollabStore.get sid), CollabStore.get_eq_ok,
        bind_eq_ok (x := check _ _), check_eq_ok] at h
      obtain ⟨s, _, ⟨hs, rfl⟩, _, _, ⟨-, rfl⟩, h⟩ := h
      exact ⟨s, hs, trivial, CollabStore.updated_of_assign h⟩
  | open_gate sid gate =>
      simp only [RecordRequest.run, CollabStore.open_gate, bind_eq_ok (x := CollabStore.get sid),
        CollabStore.get_eq_ok] at h
      obtain ⟨s, _, ⟨hs, rfl⟩, h⟩ := h
      exact ⟨s, hs, trivial, CollabStore.updated_of_assign h⟩
  | close_gate sid gid | skip_gate sid gid =>
      obtain ⟨s, g, hs, hg, hopen, hupdated⟩ := resolve_gate_spec h
      exact ⟨s, hs, ⟨g, hg, hopen⟩, hupdated⟩
  | add_decision sid gid decision =>
      simp only [RecordRequest.run, CollabStore.add_decision, bind_eq_ok (x := CollabStore.get sid),
        CollabStore.get_eq_ok, bind_eq_ok (x := lift _), lift_eq_ok] at h
      obtain ⟨s, _, ⟨hs, rfl⟩, _, _, ⟨-, rfl⟩, h⟩ := h
      exact ⟨s, hs, trivial, CollabStore.updated_of_assign h⟩

/-- A request that raises leaves the store as it was. -/
theorem RecordRequest.atomic (r : RecordRequest Sub Diag) : Atomic r.run := by
  cases r with
  | add_review sid thread =>
      exact (CollabStore.get_reads sid).bind_atomic fun _ => (Reads.lift _).bind_atomic fun _ =>
        (CollabStore.assign_publish_total _ _ _).atomic
  | add_review_comment sid rid comment =>
      exact (CollabStore.get_reads sid).bind_atomic fun _ => (Reads.check _ _).bind_atomic fun _ =>
        (CollabStore.assign_publish_total _ _ _).atomic
  | open_gate sid gate =>
      exact (CollabStore.get_reads sid).bind_atomic fun _ =>
        (CollabStore.assign_publish_total _ _ _).atomic
  | close_gate sid gid | skip_gate sid gid =>
      exact (CollabStore.get_reads sid).bind_atomic fun _ => (Reads.lift _).bind_atomic fun _ =>
        (Reads.check _ _).bind_atomic fun _ => (CollabStore.assign_publish_total _ _ _).atomic
  | add_decision sid gid decision =>
      exact (CollabStore.get_reads sid).bind_atomic fun _ => (Reads.lift _).bind_atomic fun _ =>
        (CollabStore.assign_publish_total _ _ _).atomic

/-- A request leaves session `sid` alone, or is one of its own that
returns. -/
theorem record_next {r : RecordRequest Sub Diag} {st : CollabStore Sub Diag} {sid : String}
    {s : CollabSession Sub Diag} (hs : st.sessions.get? sid = some s) :
    ((r.after st).sessions.get? sid = some s ∧ ¬ (r.session_id = sid ∧ r.returns st = true)) ∨
      (r.session_id = sid ∧ r.returns st = true ∧ r.Checked s.collab ∧
        (r.after st).sessions.get? sid = some { s with collab := r.effect s.collab }) := by
  rcases hrun : r.run st with ⟨_ | u, st'⟩
  · left
    refine ⟨?_, ?_⟩
    · rw [RecordRequest.after, hrun, show st' = st from r.atomic st _ _ hrun]
      exact hs
    · simp [RecordRequest.returns, hrun, Except.isOk, Except.toBool]
  · obtain ⟨s', hs', hchecked, hupdated⟩ := RecordRequest.run_spec hrun
    rw [show r.after st = st' from congrArg Prod.snd hrun]
    by_cases hsid : r.session_id = sid
    · right
      subst hsid
      rw [hs, Option.some.injEq] at hs'
      subst hs'
      refine ⟨rfl, by simp [RecordRequest.returns, hrun, Except.isOk, Except.toBool], hchecked, ?_⟩
      rw [hupdated.here, hs, Option.map_some]
    · left
      exact ⟨by rw [hupdated.others sid (Ne.symm hsid), hs], fun h => hsid h.1⟩

/-! ## Keeping the records -/

/-- Every record of `c` is still in `c'`: resolved gates with their status,
decisions, review threads and comments. -/
structure KeepsRecords (c c' : CollaborationState Sub Diag) : Prop where
  resolved : ∀ {id g}, c.gates.get? id = some g → g.status ≠ .OPEN →
    ∃ g', c'.gates.get? id = some g' ∧ g'.status = g.status
  decisions : ∀ {id g d}, c.gates.get? id = some g → d ∈ g.decisions →
    ∃ g', c'.gates.get? id = some g' ∧ d ∈ g'.decisions
  reviews : ∀ {id t}, c.reviews.get? id = some t →
    ∃ t', c'.reviews.get? id = some t' ∧ { t' with comments := t.comments } = t
  comments : ∀ {id t m}, c.reviews.get? id = some t → m ∈ t.comments →
    ∃ t', c'.reviews.get? id = some t' ∧ m ∈ t'.comments

theorem KeepsRecords.refl (c : CollaborationState Sub Diag) : KeepsRecords c c :=
  ⟨fun h _ => ⟨_, h, rfl⟩, fun h hd => ⟨_, h, hd⟩, fun h => ⟨_, h, rfl⟩, fun h hm => ⟨_, h, hm⟩⟩

theorem KeepsRecords.trans {a b c : CollaborationState Sub Diag} (hab : KeepsRecords a b)
    (hbc : KeepsRecords b c) : KeepsRecords a c where
  resolved h hstatus := by
    obtain ⟨g', hg', heq⟩ := hab.resolved h hstatus
    obtain ⟨g'', hg'', heq'⟩ := hbc.resolved hg' (heq ▸ hstatus)
    exact ⟨g'', hg'', heq'.trans heq⟩
  decisions h hd := by
    obtain ⟨g', hg', hd'⟩ := hab.decisions h hd
    exact hbc.decisions hg' hd'
  reviews h := by
    obtain ⟨t', ht', heq⟩ := hab.reviews h
    obtain ⟨t'', ht'', heq'⟩ := hbc.reviews ht'
    refine ⟨t'', ht'', ?_⟩
    rw [← heq, ← heq']
  comments h hm := by
    obtain ⟨t', ht', hm'⟩ := hab.comments h hm
    exact hbc.comments ht' hm'

/-- The request does not replace a record by one that has less: a gate
opened under the id of another finds that one open and brings its decisions
along, and a review added under the id of another is that one, with at
least its comments. -/
def RecordRequest.Additive (c : CollaborationState Sub Diag) : RecordRequest Sub Diag → Prop
  | .open_gate _ gate => ∀ old, c.gates.get? gate.id = some old →
      old.status = .OPEN ∧ ∀ d ∈ old.decisions, d ∈ gate.decisions
  | .add_review _ thread => ∀ old, c.reviews.get? thread.id = some old →
      { thread with comments := old.comments } = old ∧ ∀ m ∈ old.comments, m ∈ thread.comments
  | _ => True

/-- An update of the gates that touches no review. -/
theorem keepsRecords_gates_iff {c : CollaborationState Sub Diag} {gates : Dict String Gate} :
    KeepsRecords c { c with gates := gates } ↔
      ∀ {id g}, c.gates.get? id = some g →
        (g.status ≠ .OPEN → ∃ g', gates.get? id = some g' ∧ g'.status = g.status) ∧
        ∀ d ∈ g.decisions, ∃ g', gates.get? id = some g' ∧ d ∈ g'.decisions := by
  constructor
  · intro h id g hg
    exact ⟨h.resolved hg, fun d hd => h.decisions hg hd⟩
  · intro h
    exact ⟨fun hg => (h hg).1, fun hg hd => (h hg).2 _ hd, fun ht => ⟨_, ht, rfl⟩,
      fun ht hm => ⟨_, ht, hm⟩⟩

/-- An update of the reviews that touches no gate. -/
theorem keepsRecords_reviews_iff {c : CollaborationState Sub Diag}
    {reviews : Dict String (ReviewThread Sub Diag)} :
    KeepsRecords c { c with reviews := reviews } ↔
      ∀ {id t}, c.reviews.get? id = some t →
        (∃ t', reviews.get? id = some t' ∧ { t' with comments := t.comments } = t) ∧
        ∀ m ∈ t.comments, ∃ t', reviews.get? id = some t' ∧ m ∈ t'.comments := by
  constructor
  · intro h id t ht
    exact ⟨h.reviews ht, fun m hm => h.comments ht hm⟩
  · intro h
    exact ⟨fun hg _ => ⟨_, hg, rfl⟩, fun hg hd => ⟨_, hg, hd⟩, fun ht => (h ht).1,
      fun ht hm => (h ht).2 _ hm⟩

/-- Changing one gate in place keeps the records when it keeps its
decisions and, unless it was open, its status. -/
theorem keepsRecords_modify_gate {c : CollaborationState Sub Diag} {gid : String}
    {f : Gate → Gate} (hf : ∀ g, c.gates.get? gid = some g →
      (g.status ≠ .OPEN → (f g).status = g.status) ∧ ∀ d ∈ g.decisions, d ∈ (f g).decisions) :
    KeepsRecords c { c with gates := c.gates.modify gid f } := by
  rw [keepsRecords_gates_iff]
  intro id g hg
  rw [Dict.get?_modify]
  by_cases hid : gid = id
  · subst hid
    rw [if_pos rfl, hg, Option.map_some]
    exact ⟨fun h => ⟨f g, rfl, (hf g hg).1 h⟩, fun d hd => ⟨f g, rfl, (hf g hg).2 d hd⟩⟩
  · rw [if_neg hid]
    exact ⟨fun _ => ⟨g, hg, rfl⟩, fun d hd => ⟨g, hg, hd⟩⟩

/-- A request keeps the records exactly when it is additive. -/
theorem RecordRequest.keepsRecords_iff {r : RecordRequest Sub Diag}
    {c : CollaborationState Sub Diag} (hchecked : r.Checked c) :
    KeepsRecords c (r.effect c) ↔ r.Additive c := by
  cases r with
  | open_gate sid gate =>
      rw [RecordRequest.effect, keepsRecords_gates_iff, RecordRequest.Additive]
      constructor
      · intro h old hold
        -- a gate that was resolved would be open again
        obtain ⟨hresolved, hdecisions⟩ := h hold
        simp only [Dict.get?_set_self, Option.some.injEq, exists_eq_left'] at hresolved hdecisions
        exact ⟨by_contra fun hne => hne (hresolved hne).symm, hdecisions⟩
      · intro h id g hg
        rw [Dict.get?_set]
        by_cases hid : gate.id = id
        · subst hid
          obtain ⟨hopen, hdecisions⟩ := h g hg
          rw [if_pos rfl]
          exact ⟨fun hne => absurd hopen hne, fun d hd => ⟨_, rfl, hdecisions d hd⟩⟩
        · rw [if_neg hid]
          exact ⟨fun _ => ⟨g, hg, rfl⟩, fun d hd => ⟨g, hg, hd⟩⟩
  | add_review sid thread =>
      rw [RecordRequest.effect, keepsRecords_reviews_iff, RecordRequest.Additive]
      constructor
      · intro h old hold
        obtain ⟨hsame, hcomments⟩ := h hold
        simp only [Dict.get?_set_self, Option.some.injEq, exists_eq_left'] at hsame hcomments
        exact ⟨hsame, hcomments⟩
      · intro h id t ht
        rw [Dict.get?_set]
        by_cases hid : thread.id = id
        · subst hid
          obtain ⟨hsame, hcomments⟩ := h t ht
          rw [if_pos rfl]
          exact ⟨⟨thread, rfl, hsame⟩, fun m hm => ⟨thread, rfl, hcomments m hm⟩⟩
        · rw [if_neg hid]
          exact ⟨⟨t, ht, rfl⟩, fun m hm => ⟨t, ht, hm⟩⟩
  | add_review_comment sid rid comment =>
      refine iff_of_true ?_ trivial
      rw [RecordRequest.effect, keepsRecords_reviews_iff]
      intro id t ht
      rw [Dict.get?_modify]
      by_cases hid : rid = id
      · subst hid
        rw [if_pos rfl, ht, Option.map_some]
        exact ⟨⟨_, rfl, rfl⟩, fun m hm => ⟨_, rfl, List.mem_append_left _ hm⟩⟩
      · rw [if_neg hid]
        exact ⟨⟨t, ht, rfl⟩, fun m hm => ⟨t, ht, hm⟩⟩
  | close_gate sid gid | skip_gate sid gid =>
      refine iff_of_true (keepsRecords_modify_gate ?_) trivial
      -- only an open gate is closed or skipped, so no resolution is overwritten
      obtain ⟨g', hg', hopen⟩ := hchecked
      intro g hg
      rw [hg, Option.some.injEq] at hg'
      subst hg'
      exact ⟨fun hne => absurd hopen hne, fun d hd => hd⟩
  | add_decision sid gid decision =>
      refine iff_of_true (keepsRecords_modify_gate ?_) trivial
      intro g hg
      exact ⟨fun _ => rfl, fun d hd => List.mem_append_left _ hd⟩

/-! ## Sequences of requests -/

/-- From any state of the run to any later one, session `sid` keeps its
records. -/
def AppendOnly (sid : String) (st : CollabStore Sub Diag)
    (requests : List (RecordRequest Sub Diag)) : Prop :=
  Runs.Between RecordRequest.after (fun st st' => ∀ s, st.sessions.get? sid = some s →
    ∃ s', st'.sessions.get? sid = some s' ∧ KeepsRecords s.collab s'.collab) st requests

/-- The records of a session are append-only over a sequence of requests
exactly when every request of the session that returns is additive in the
state it meets. -/
theorem append_only_iff (sid : String) (st : CollabStore Sub Diag)
    (requests : List (RecordRequest Sub Diag)) :
    AppendOnly sid st requests ↔
      Runs.AllSteps RecordRequest.after (fun st r => r.session_id = sid → r.returns st = true →
        ∀ s, st.sessions.get? sid = some s → r.Additive s.collab) st requests := by
  -- keeping records is transitive, so the runs may be judged step by step
  rw [AppendOnly, Runs.between_iff]
  · have hstep : ∀ (st : CollabStore Sub Diag) (r : RecordRequest Sub Diag),
        (∀ s, st.sessions.get? sid = some s → ∃ s', (r.after st).sessions.get? sid = some s' ∧
          KeepsRecords s.collab s'.collab) ↔
        (r.session_id = sid → r.returns st = true →
          ∀ s, st.sessions.get? sid = some s → r.Additive s.collab) := by
      intro st r
      constructor
      · intro h hsid hret s hs
        obtain ⟨s', hs', hkept⟩ := h s hs
        rcases record_next (r := r) hs with ⟨-, hnot⟩ | ⟨-, -, hchecked, hafter⟩
        · exact absurd ⟨hsid, hret⟩ hnot
        · rw [hafter, Option.some.injEq] at hs'
          subst hs'
          exact (RecordRequest.keepsRecords_iff hchecked).mp hkept
      · intro h s hs
        rcases record_next (r := r) hs with ⟨hafter, -⟩ | ⟨hsid, hret, hchecked, hafter⟩
        · exact ⟨s, hafter, .refl _⟩
        · exact ⟨_, hafter, (RecordRequest.keepsRecords_iff hchecked).mpr (h hsid hret s hs)⟩
    simp only [hstep]
  · intro st s hs
    exact ⟨s, hs, .refl _⟩
  · intro st st' st'' h h' s hs
    obtain ⟨s', hs', hkept⟩ := h s hs
    obtain ⟨s'', hs'', hkept'⟩ := h' s' hs'
    exact ⟨s'', hs'', hkept.trans hkept'⟩

/-! ## Examples -/

def one_session : CollabStore Empty Unit :=
  { sessions := Dict.empty.set "s" { id := "s" } }

def budget_gate : Gate :=
  { id := "g", phase := "review", kind := .CONFIRM, description := "sign off" }

/-- A gate is closed with a decision, then a gate with its id is opened. -/
def reopened : List (RecordRequest Empty Unit) :=
  [.open_gate "s" budget_gate, .add_decision "s" "g" ⟨"d", "human", "approved"⟩,
    .close_gate "s" "g", .open_gate "s" budget_gate]

/-- Opening a gate under the id of a closed one erases the sign-off. -/
theorem reopened_loses_decision : ¬ AppendOnly "s" one_session reopened := by
  intro h
  obtain ⟨s', hs', hkept⟩ := h (reopened.take 3) (reopened.drop 3) [] rfl _ rfl
  cases hs'
  obtain ⟨g, hg, hstatus⟩ := hkept.resolved (show Dict.get? _ "g" = _ from rfl) (by decide)
  cases hg
  cases hstatus

end EmergentFlow
