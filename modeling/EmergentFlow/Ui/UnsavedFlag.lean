import EmergentFlow.Server.FlowLibrary
import EmergentFlow.Ui.FlowPage

/-!
# Ui — UnsavedFlag

When a clean flag means that nothing is unsaved. Most actions raise the flag
or leave the document alone. The flag goes down with `New` and when an answer
arrives, whatever happened since the request; and while it is down, the
params of the flow can change under it, and so can the file. The condition
says of each such step what it has to find.
-/

namespace EmergentFlow.FlowPage

variable {N E : Type} {maps : Mappers N E} {renders : Json → Bool} {page : Page N E}

/-! ## The law -/

/-- The flow stored under a slug. -/
def stored (server : FlowStore) (slug : String) : Option Json :=
  if h : slug_re slug = true then server.flows.get? ⟨slug, h⟩ else none

/-- Nothing on the canvas is unsaved: its document is the one stored under
the slug or, without a slug, that of an empty canvas. -/
def Saved (maps : Mappers N E) (page : Page N E) : Prop :=
  match page.currentSlug with
  | some slug => stored page.server slug = some (toIR maps page.canvas)
  | none => toIR maps page.canvas = toIR maps (reset maps page.canvas)

/-- A clean flag means that nothing is unsaved. -/
def FlagSound (maps : Mappers N E) (page : Page N E) : Prop :=
  page.isDirty = false → Saved maps page

/-! ## The condition -/

/-- What the server does with a request spares the document under a slug:
it writes no other there and does not move it away. -/
def Spares (graph : Json) (slug : String) : FlowRequest → FlowResponse → Prop
  | .create_flow body, .saved k => k.1 = slug → body_graph body = .ok graph
  | .update_flow _ body, .saved k => k.1 = slug → body_graph body = .ok graph
  | .rename_flow old _, .saved k => old = slug → k.1 = slug
  | .delete_flow gone, .deleted => gone ≠ slug
  | _, _ => True

/-- What an answer has to find: the file that the flow is about to be of
holds the document that the canvas is about to have. An answer to a rename
that leaves the flag up needs nothing. -/
def Timely (maps : Mappers N E) (page : Page N E) : PageCall → FlowResponse → Prop
  | .saveFlow _ _, .saved _ => Saved maps page
  | .saveNewFlow _, .saved slug => stored page.server slug.1 = some (toIR maps page.canvas)
  | .loadFlow slug, .content graph =>
      stored page.server slug = some (toIR maps (loadIR maps page.canvas graph))
  | .renameFlow oldSlug _ name, .saved slug =>
      page.isDirty = false → page.canvas.name = some name → page.currentSlug = some oldSlug →
        stored page.server slug.1 = some (toIR maps page.canvas)
  | _, _ => True

/-- An action that the subscriber does not notice leaves the document as it
is, unless the flag is up; the server spares the file of a clean flow; and
answers are timely. -/
def Careful (maps : Mappers N E) (renders : Json → Bool) (page : Page N E) : PageStep N E → Prop
  | .act action => page.isDirty = false → action.tracked page.canvas = false →
      toIR maps (action.apply maps page.canvas) = toIR maps page.canvas
  | .serve i fault random => ∀ call, page.calls[i]? = some ⟨call, .sent⟩ →
      page.isDirty = false → ∀ slug, page.currentSlug = some slug →
        Spares (toIR maps page.canvas) slug call.request
          (page.server.call renders ⟨call.request, fault, random⟩).1
  | .receive i => ∀ call response, page.calls[i]? = some ⟨call, .answered response⟩ →
      Timely maps page call response
  | _ => True

/-! ## The server -/

theorem stored_slug (server : FlowStore) (k : Slug) : stored server k.1 = server.flows.get? k := by
  rw [stored, dif_pos k.2]

theorem stored_eq_some {server : FlowStore} {slug : String} {graph : Json}
    (h : stored server slug = some graph) :
    ∃ k : Slug, k.1 = slug ∧ server.flows.get? k = some graph := by
  by_cases hslug : slug_re slug = true
  · rw [stored, dif_pos hslug] at h
    exact ⟨⟨slug, hslug⟩, rfl, h⟩
  · rw [stored, dif_neg hslug] at h
    cases h

theorem body_graph_of_created {body : Option Json} {slug : String} {graph : Json}
    (h : created body = .ok (slug, graph)) : body_graph body = .ok graph := by
  obtain ⟨graph', hgraph, hslug⟩ := Checks.bind_eq_ok.mp h
  cases hbody : body_slug (body.getD .null) graph' with
  | none =>
      rw [hbody] at hslug
      cases hslug
  | some slug' =>
      rw [hbody] at hslug
      cases hslug
      exact hgraph

/-- A document stays under its slug exactly when it is spared. -/
theorem stored_after_iff {s s' : FlowStore} {c : FlowCall} {r : FlowResponse} {slug : String}
    {graph : Json} (heffect : c.Effect s r s'.flows) (hstored : stored s slug = some graph) :
    stored s' slug = some graph ↔ Spares graph slug c.request r := by
  obtain ⟨k, rfl, hget⟩ := stored_eq_some hstored
  rw [stored_slug]
  generalize s'.flows = flows at heffect ⊢
  cases heffect with
  | failed status failure =>
      refine iff_of_true hget ?_
      cases c.request <;> trivial
  | read hrequest _ =>
      rw [hrequest]
      exact iff_of_true hget trivial
  | @create body new written hrequest hbody _ =>
      rw [hrequest, Spares, body_graph_of_created hbody, Dict.get?_set]
      by_cases hk : new = k
      · simp [hk]
      · simp [hk, hget, Subtype.ext_iff.not.mp hk]
  | @update body new written hrequest hbody =>
      rw [hrequest, Spares, hbody, Dict.get?_set]
      by_cases hk : new = k
      · simp [hk]
      · simp [hk, hget, Subtype.ext_iff.not.mp hk]
  | @delete gone hrequest =>
      rw [hrequest, Spares, Dict.get?_erase]
      by_cases hk : gone = k
      · simp [hk]
      · simp [hk, hget, Subtype.ext_iff.not.mp hk]
  | rename_self hrequest =>
      rw [hrequest]
      exact iff_of_true hget id
  | @rename body old new moved hrequest hold hnew hne =>
      rw [hrequest, Spares]
      have hk : new ≠ k := by
        rintro rfl
        cases hnew.symm.trans hget
      rw [Dict.get?_set_ne _ _ hk, Dict.get?_erase]
      by_cases hmoved : old = k
      · subst hmoved
        simp [Subtype.ext_iff.not.mp hk]
      · simp [hmoved, hget, Subtype.ext_iff.not.mp hmoved]

/-! ## Actions -/

/-- What the subscriber does not notice keeps the name and the schema version,
and so what `reset` makes of the canvas. -/
theorem reset_apply_of_untracked {action : GraphAction N E} {canvas : CanvasModel N E}
    (h : action.tracked canvas = false) :
    reset maps (action.apply maps canvas) = reset maps canvas := by
  cases action with
  | setNodes nodes edges => cases h
  | setName name =>
      have hname : canvas.name = some name := by simpa [GraphAction.tracked] using h
      simp only [GraphAction.apply, reset, hname]
  | loadIR graph => cases h
  | loadModel model => cases h
  | reset => cases h
  | _ => rfl

/-- A clean page, and one with the same slug, file and flag on which `reset`
would come to the same: nothing is unsaved there exactly when the document is
the same. -/
theorem saved_iff_of_same {page' : Page N E} (hsaved : Saved maps page)
    (hserver : page'.server = page.server) (hslug : page'.currentSlug = page.currentSlug)
    (hreset : reset maps page'.canvas = reset maps page.canvas) :
    Saved maps page' ↔ toIR maps page'.canvas = toIR maps page.canvas := by
  rw [Saved] at hsaved ⊢
  rw [hslug, hserver, hreset]
  cases hcurrent : page.currentSlug with
  | none =>
      rw [hcurrent] at hsaved
      rw [hsaved]
  | some slug =>
      rw [hcurrent] at hsaved
      simp only [hsaved, Option.some.injEq]
      exact eq_comm

theorem act_sound_iff (h : FlagSound maps page) (action : GraphAction N E) :
    FlagSound maps (page.act maps action) ↔
      (page.isDirty = false → action.tracked page.canvas = false →
        toIR maps (action.apply maps page.canvas) = toIR maps page.canvas) := by
  rw [FlagSound]
  cases hdirty : page.isDirty with
  | true => simp [Page.act, hdirty]
  | false =>
      cases htracked : action.tracked page.canvas with
      | true => simp [Page.act, hdirty, htracked]
      | false =>
          have hflag : (page.act maps action).isDirty = false := by
            simp [Page.act, hdirty, htracked]
          simp only [hflag, forall_const]
          exact saved_iff_of_same (h hdirty) rfl rfl (reset_apply_of_untracked htracked)

/-- The subscriber notices every change of the name. -/
theorem setName_of_untracked (maps : Mappers N E) {name : String} {canvas : CanvasModel N E}
    (h : (GraphAction.setName name : GraphAction N E).tracked canvas = false) :
    canvas.name = some name ∧
      (GraphAction.setName name : GraphAction N E).apply maps canvas = canvas := by
  have hname : canvas.name = some name := by simpa [GraphAction.tracked] using h
  exact ⟨hname, by simp only [GraphAction.apply, ← hname]⟩

theorem setName_sound (h : FlagSound maps page) (name : String) :
    FlagSound maps (page.act maps (.setName name)) := by
  rw [act_sound_iff h]
  intro _ huntracked
  rw [(setName_of_untracked maps huntracked).2]

/-! ## The file menu -/

theorem send_sound {call : PageCall} (h : FlagSound maps page) :
    FlagSound maps (page.send call) := h

theorem handleNew_sound (h : FlagSound maps page) (confirmed : Bool) :
    FlagSound maps (page.handleNew maps confirmed) := by
  rw [Page.handleNew]
  split
  · exact h
  · exact fun _ => rfl

theorem handleSaveAs_sound (h : FlagSound maps page) (input : Option String) :
    FlagSound maps (page.handleSaveAs maps input) := by
  rw [Page.handleSaveAs]
  cases Page.prompted input with
  | none => exact h
  | some name => exact send_sound (setName_sound h name)

theorem handleSave_sound (h : FlagSound maps page) (input : Option String) :
    FlagSound maps (page.handleSave maps input) := by
  rw [Page.handleSave]
  cases page.currentSlug with
  | none => exact handleSaveAs_sound h input
  | some slug => exact send_sound h

theorem handleRename_sound (h : FlagSound maps page) (input : Option String) :
    FlagSound maps (page.handleRename input) := by
  rw [Page.handleRename]
  split
  · exact send_sound h
  · exact h

theorem commitName_sound (h : FlagSound maps page) (draft : String) :
    FlagSound maps (page.commitName maps draft) := by
  have hnamed := setName_sound h (String.ofList (Widgets.js_trim draft.toList))
  rw [Page.commitName]
  split
  · exact hnamed
  · exact send_sound hnamed

/-! ## Answers -/

theorem advance_sound {i : Nat} {progress : Progress} :
    FlagSound maps (page.advance i progress) ↔ FlagSound maps page := Iff.rfl

/-- The answer to a rename: the slug follows if it is still the old one, and
the flag goes up if the name is another. -/
theorem renamed_sound_iff (h : FlagSound maps page) {oldSlug newSlug name : String} {k : Slug} :
    FlagSound maps (page.respond maps (.renameFlow oldSlug newSlug name) (.saved k)) ↔
      Timely maps page (.renameFlow oldSlug newSlug name) (.saved k) := by
  rw [Timely]
  cases hdirty : page.isDirty with
  | true =>
      refine iff_of_true (fun hclean => ?_) nofun
      have hflag : (page.isDirty || _) = false := hclean
      rw [hdirty] at hflag
      cases hflag
  | false =>
      -- a name that changes is a tracked edit and marks the page dirty
      cases htracked : (GraphAction.setName name : GraphAction N E).tracked page.canvas with
      | true =>
          refine iff_of_true (fun hclean => ?_) fun _ hname => ?_
          · have hflag : (_ || (GraphAction.setName name : GraphAction N E).tracked page.canvas) =
              false := hclean
            rw [htracked, Bool.or_true] at hflag
            cases hflag
          · simp [GraphAction.tracked, hname] at htracked
      | false =>
          obtain ⟨hname, hsame⟩ := setName_of_untracked maps htracked
          have hflag : (page.respond maps (.renameFlow oldSlug newSlug name) (.saved k)).isDirty =
              false := by
            show (page.isDirty || _) = false
            rw [hdirty]
            exact htracked
          have hcanvas : (page.respond maps (.renameFlow oldSlug newSlug name) (.saved k)).canvas =
              page.canvas := hsame
          rw [FlagSound, Saved, hcanvas, hflag]
          simp only [forall_const, hname]
          show (match if page.currentSlug = some oldSlug then some k.1 else page.currentSlug with
            | some slug => stored page.server slug = some (toIR maps page.canvas)
            | none => toIR maps page.canvas = toIR maps (reset maps page.canvas)) ↔ _
          by_cases hcurrent : page.currentSlug = some oldSlug
          · rw [if_pos hcurrent]
            exact ⟨fun hstored _ => hstored, fun hstored => hstored hcurrent⟩
          · rw [if_neg hcurrent]
            exact iff_of_true (h hdirty) fun heq => absurd heq hcurrent

theorem respond_sound_iff (h : FlagSound maps page) (call : PageCall) (response : FlowResponse) :
    FlagSound maps (page.respond maps call response) ↔ Timely maps page call response := by
  cases call with
  | saveFlow slug graph =>
      cases response with
      | saved k =>
          rw [Page.respond, Timely, FlagSound]
          exact ⟨fun hsaved => hsaved rfl, fun hsaved _ => hsaved⟩
      | _ => exact iff_of_true h trivial
  | saveNewFlow graph =>
      cases response with
      | saved k =>
          rw [Page.respond, Timely, FlagSound]
          exact ⟨fun hsaved => hsaved rfl, fun hsaved _ => hsaved⟩
      | _ => exact iff_of_true h trivial
  | loadFlow slug =>
      cases response with
      | content graph =>
          rw [Page.respond, Timely, FlagSound]
          exact ⟨fun hsaved => hsaved rfl, fun hsaved _ => hsaved⟩
      | _ => exact iff_of_true h trivial
  | renameFlow oldSlug newSlug name =>
      cases response with
      | saved k => exact renamed_sound_iff h
      | _ => exact iff_of_true h trivial

/-! ## One step -/

theorem serve_sound_iff (h : FlagSound maps page) (i : Nat) (fault : Option Fault)
    (random : String) :
    FlagSound maps (page.serve renders i fault random) ↔
      Careful maps renders page (.serve i fault random) := by
  have hidle : (∀ call, page.calls[i]? ≠ some ⟨call, .sent⟩) →
      (FlagSound maps page ↔ Careful maps renders page (.serve i fault random)) :=
    fun hnot => iff_of_true h fun call hcall => absurd hcall (hnot call)
  rw [Page.serve]
  split
  next call hcall =>
    have heffect := page.server.call_effect renders ⟨call.request, fault, random⟩
    -- the only call served is the one at `i`
    have hone : Careful maps renders page (.serve i fault random) ↔
        (page.isDirty = false → ∀ slug, page.currentSlug = some slug →
          Spares (toIR maps page.canvas) slug call.request
            (page.server.call renders ⟨call.request, fault, random⟩).1) := by
      constructor
      · exact fun hcareful => hcareful call hcall
      · intro hspares call' hcall'
        cases hcall.symm.trans hcall'
        exact hspares
    rw [hone]
    apply imp_congr_right
    intro hclean
    have hsaved := h hclean
    show (match page.currentSlug with
      | some slug => stored _ slug = some (toIR maps page.canvas)
      | none => toIR maps page.canvas = toIR maps (reset maps page.canvas)) ↔ _
    rw [Saved] at hsaved
    cases hcurrent : page.currentSlug with
    | none =>
        rw [hcurrent] at hsaved
        exact iff_of_true hsaved nofun
    | some slug =>
        rw [hcurrent] at hsaved
        simp only [Option.some.injEq, forall_eq']
        exact stored_after_iff heffect hsaved
  next hnot => exact hidle fun call hcall => hnot call hcall

theorem receive_sound_iff (h : FlagSound maps page) (i : Nat) :
    FlagSound maps (page.receive maps i) ↔ Careful maps renders page (.receive i) := by
  rw [Page.receive]
  split
  next call response hcall =>
    rw [respond_sound_iff (advance_sound.mpr h)]
    constructor
    · intro htimely call' response' hcall'
      cases hcall.symm.trans hcall'
      cases call <;> cases response <;> exact htimely
    · intro hcareful
      have htimely := hcareful call response hcall
      cases call <;> cases response <;> exact htimely
  next hnot =>
    exact iff_of_true h fun call response hcall => absurd hcall (hnot call response)

theorem step_sound_iff (page : Page N E) (a : PageStep N E) (h : FlagSound maps page) :
    FlagSound maps (Page.step maps renders page a) ↔ Careful maps renders page a := by
  cases a with
  | act action => exact act_sound_iff h action
  | new confirmed => exact iff_of_true (handleNew_sound h confirmed) trivial
  | openFlow slug => exact iff_of_true (send_sound h) trivial
  | save input => exact iff_of_true (handleSave_sound h input) trivial
  | saveAs input => exact iff_of_true (handleSaveAs_sound h input) trivial
  | rename input => exact iff_of_true (handleRename_sound h input) trivial
  | commitName draft => exact iff_of_true (commitName_sound h draft) trivial
  | serve i fault random => exact serve_sound_iff h i fault random
  | receive i => exact receive_sound_iff h i
  | lose i => exact iff_of_true (advance_sound.mpr h) trivial

/-! ## Every run -/

theorem opened_sound (server : FlowStore) : FlagSound maps (opened maps server) :=
  fun _ => rfl

/-- However actions, menu commands, requests and answers interleave, the flag
is sound in every state exactly when every step is careful. -/
theorem flag_sound_iff (maps : Mappers N E) (renders : Json → Bool) (server : FlowStore)
    (l : List (PageStep N E)) :
    (∀ pre post, l = pre ++ post →
        FlagSound maps (Runs.run (Page.step maps renders) (opened maps server) pre)) ↔
      Runs.AllSteps (Page.step maps renders) (Careful maps renders) (opened maps server) l :=
  Runs.AllSteps.exact (opened_sound server) step_sound_iff

/-- Mappers of a canvas that stays empty. -/
def empty_canvas : Mappers Unit Unit where
  nodesToIR := fun _ => .obj []
  edgesToIR := fun _ => .obj []
  fromIR := fun _ => { paradigm := "functional", nodes := (), edges := () }
  separateOverlappingNodes := id
  no_nodes := ()
  no_edges := ()

/-- Save a flow as `a`, and add a param to it. -/
def param_added : List (PageStep Unit Unit) :=
  [.saveAs (some "a"), .serve 0 none "", .receive 0, .act .addGraphParam]

/-- The flag is down, and the flow that is stored has no param. -/
theorem param_added_unsaved :
    ¬ ∀ l : List (PageStep Unit Unit), FlagSound empty_canvas
      (Runs.run (Page.step empty_canvas fun _ => true) (opened empty_canvas {}) l) := by
  intro h
  have hsaved := h param_added (by decide)
  have hslug : (Runs.run (Page.step empty_canvas fun _ => true) (opened empty_canvas {})
      param_added).currentSlug = some "a" := by decide
  rw [Saved, hslug] at hsaved
  have hlength := congrArg (fun graph => (graph.bind (Json.get? "params")).isSome) hsaved
  revert hlength
  decide

end EmergentFlow.FlowPage
