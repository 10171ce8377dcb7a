import EmergentFlow.Ui.UnsavedFlag

/-!
# Ui — UnsavedRuns

When the flag of unsaved changes is sound over a whole run. Each call is
remembered with the document that the canvas had when it was sent and with
the file that its answer is about as it was when it was served. An answer
has to find both as they were: no edit, no other flow opened, no later
request on the file. That it lowers the flag over a saved flow is then the
work of the save, which sends the document of the canvas and has the server
write it under the slug of the page.
-/

namespace EmergentFlow.FlowPage

variable {N E : Type} {maps : Mappers N E} {renders : Json → Bool}

/-! ## The moments of a call -/

/-- The document of the canvas when a call was sent, and the file that the
answer is about when it was served. -/
structure Moment where
  document : Json
  file : Option Json := none

/-- A page with the moments of its calls, in the order of the calls. -/
structure Watched (N E : Type) where
  page : Page N E
  moments : List Moment := []

/-- The slug of the file that an answer is about. -/
def answered_slug : PageCall → FlowResponse → Option String
  | _, .saved slug => some slug.1
  | .loadFlow slug, .content _ => some slug
  | _, _ => none

namespace Watched

/-- A step of the page. Serving a call fixes its file, and a call that is sent
gets its document. -/
def step (maps : Mappers N E) (renders : Json → Bool) (w : Watched N E) (a : PageStep N E) :
    Watched N E :=
  let page := w.page.step maps renders a
  match a with
  | .serve i fault random =>
      match w.page.calls[i]? with
      | some ⟨call, .sent⟩ =>
          let response := (w.page.server.call renders ⟨call.request, fault, random⟩).1
          let file := (answered_slug call response).bind (stored page.server)
          { page, moments := w.moments.modify i fun m => { m with file } }
      | _ => { page, moments := w.moments }
  | _ =>
      let sent := page.calls.length - w.page.calls.length
      { page, moments := w.moments ++ List.replicate sent ⟨toIR maps page.canvas, none⟩ }

/-- A page that was just opened has made no calls. -/
def opened (maps : Mappers N E) (server : FlowStore) : Watched N E where
  page := FlowPage.opened maps server

@[simp] theorem page_step (w : Watched N E) (a : PageStep N E) :
    (w.step maps renders a).page = w.page.step maps renders a := by
  unfold step
  cases a with
  | serve i fault random =>
      dsimp only
      split <;> rfl
  | _ => rfl

theorem page_run (w : Watched N E) (l : List (PageStep N E)) :
    (Runs.run (step maps renders) w l).page = Runs.run (Page.step maps renders) w.page l := by
  induction l using List.reverseRecOn with
  | nil => rfl
  | append_singleton l a ih => rw [Runs.run_concat, Runs.run_concat, page_step, ih]

end Watched

/-! ## The condition -/

/-- The canvas would write the document as it is: no nodes to move apart, and
a name and a schema version of its own unless the canvas has none. -/
structure LoadsWhole (maps : Mappers N E) (canvas : CanvasModel N E) (graph : Json) : Prop where
  written : toIR maps (maps.fromIR graph) = graph
  apart : maps.separateOverlappingNodes (maps.fromIR graph).nodes = (maps.fromIR graph).nodes
  name : (maps.fromIR graph).name = none → canvas.name = none
  version : (maps.fromIR graph).schemaVersion = none → canvas.schemaVersion = none

/-- What has to be as it was when an answer arrives. An answer to a save that
finds the flag down lowers nothing; one to a rename matters when the flow is
still the current one and the flag stays down. -/
def Undisturbed (maps : Mappers N E) (page : Page N E) (m : Moment) :
    PageCall → FlowResponse → Prop
  | .saveFlow slug _, .saved _ => page.isDirty = true →
      toIR maps page.canvas = m.document ∧ page.currentSlug = some slug ∧
        stored page.server slug = m.file
  | .saveNewFlow _, .saved slug =>
      toIR maps page.canvas = m.document ∧ stored page.server slug.1 = m.file
  | .loadFlow slug, .content graph =>
      stored page.server slug = m.file ∧ LoadsWhole maps page.canvas graph
  | .renameFlow oldSlug _ name, .saved slug =>
      page.isDirty = false → page.canvas.name = some name → page.currentSlug = some oldSlug →
        slug.1 = oldSlug
  | _, _ => True

/-- Answers are undisturbed; an unnoticed action and the server are as careful
as before. -/
def Settled (maps : Mappers N E) (renders : Json → Bool) (w : Watched N E) :
    PageStep N E → Prop
  | .receive i => ∀ call response m, w.page.calls[i]? = some ⟨call, .answered response⟩ →
      w.moments[i]? = some m → Undisturbed maps w.page m call response
  | a => Careful maps renders w.page a

/-! ## What the moments say -/

/-- The document that a call writes. -/
def PageCall.graph? : PageCall → Option Json
  | .saveFlow _ graph | .saveNewFlow graph => some graph
  | .loadFlow _ | .renameFlow .. => none

/-- What was stored when an answer was given: the document of the request
after a save, that of the answer to an open. -/
def Answers (file : Option Json) : PageCall → FlowResponse → Prop
  | .saveFlow slug graph, .saved k => k.1 = slug ∧ file = some graph
  | .saveNewFlow graph, .saved _ => file = some graph
  | .loadFlow _, .content graph => file = some graph
  | _, _ => True

/-- The moments belong to the call. -/
structure Describes (flight : Flight) (m : Moment) : Prop where
  object : ∃ members, m.document = .obj members
  sent : ∀ graph, flight.call.graph? = some graph → graph = m.document
  served : ∀ response, flight.progress = .answered response →
    Answers m.file flight.call response

/-- Every call has its moments. -/
def Watched.Inv (w : Watched N E) : Prop := List.Forall₂ Describes w.page.calls w.moments

theorem Watched.Inv.exists_moment {w : Watched N E} (h : w.Inv) {i : Nat} {flight : Flight}
    (hi : w.page.calls[i]? = some flight) : ∃ m, w.moments[i]? = some m ∧ Describes flight m := by
  obtain ⟨hlt, rfl⟩ := List.getElem?_eq_some_iff.mp hi
  have hlt' : i < w.moments.length := h.length_eq ▸ hlt
  exact ⟨w.moments[i], List.getElem?_eq_getElem hlt', List.Forall₂.get h hlt hlt'⟩

theorem forall₂_modify {α : Type} {R : α → α → Prop} {f : α → α} (hrefl : ∀ a, R a a)
    (hf : ∀ a, R (f a) a) (l : List α) (i : Nat) : List.Forall₂ R (l.modify i f) l := by
  induction l generalizing i with
  | nil => simp
  | cons a l ih =>
      cases i with
      | zero => simpa using ⟨hf a, fun b _ => hrefl b⟩
      | succ i => simpa using ⟨hrefl a, ih i⟩

theorem forall₂_modify_both {α β : Type} {R : α → β → Prop} {f : α → α} {g : β → β} {l : List α}
    {l' : List β} (h : List.Forall₂ R l l') {i : Nat} {a : α} (ha : l[i]? = some a)
    (hfg : ∀ b, R a b → R (f a) (g b)) :
    List.Forall₂ R (l.modify i f) (l'.modify i g) := by
  induction h generalizing i with
  | nil => simp
  | @cons b b' l l' hb hl ih =>
      cases i with
      | zero =>
          obtain rfl : b = a := by simpa using ha
          simpa using ⟨hfg b' hb, hl⟩
      | succ i =>
          have ha : l[i]? = some a := by simpa using ha
          simpa using ⟨hb, ih ha⟩

theorem forall₂_comp {α β γ : Type} {R : α → β → Prop} {S : β → γ → Prop} {T : α → γ → Prop}
    (h : ∀ {a b c}, R a b → S b c → T a c) {l : List α} {l' : List β} {l'' : List γ}
    (hl : List.Forall₂ R l l') (hl' : List.Forall₂ S l' l'') : List.Forall₂ T l l'' := by
  induction hl generalizing l'' with
  | nil =>
      cases hl'
      exact .nil
  | cons hab _ ih =>
      cases hl' with
      | cons hbc hrest => exact .cons (h hab hbc) (ih hrest)

/-- What becomes of a call while another one is at work. -/
def Flight.Kept (flight' flight : Flight) : Prop :=
  flight'.call = flight.call ∧ (flight'.progress = flight.progress ∨ flight'.progress = .done)

/-- A step that is no service keeps the calls, and sends the document that
the canvas then has. -/
def Sends (maps : Mappers N E) (calls : List Flight) (page' : Page N E) : Prop :=
  ∃ old sent, page'.calls = old ++ sent ∧ List.Forall₂ Flight.Kept old calls ∧
    ∀ flight ∈ sent, flight.progress = .sent ∧
      ∀ graph, flight.call.graph? = some graph → graph = toIR maps page'.canvas

theorem forall₂_kept_refl (calls : List Flight) : List.Forall₂ Flight.Kept calls calls :=
  List.forall₂_same.mpr fun _ _ => ⟨rfl, .inl rfl⟩

theorem Sends.of_calls {calls : List Flight} {page' : Page N E}
    (h : List.Forall₂ Flight.Kept page'.calls calls) : Sends maps calls page' :=
  ⟨page'.calls, [], (List.append_nil _).symm, h, nofun⟩

theorem Sends.send {calls : List Flight} {page : Page N E}
    (h : List.Forall₂ Flight.Kept page.calls calls) {call : PageCall}
    (hgraph : ∀ graph, call.graph? = some graph → graph = toIR maps page.canvas) :
    Sends maps calls (page.send call) :=
  ⟨page.calls, [⟨call, .sent⟩], rfl, h, fun flight hflight => by
    obtain rfl := List.mem_singleton.mp hflight
    exact ⟨rfl, hgraph⟩⟩

theorem sends_handleSaveAs (page : Page N E) (input : Option String) :
    Sends maps page.calls (page.handleSaveAs maps input) := by
  rw [Page.handleSaveAs]
  cases Page.prompted input with
  | none => exact .of_calls (forall₂_kept_refl _)
  | some name =>
      refine .send (forall₂_kept_refl _) ?_
      rintro graph ⟨⟩
      rfl

theorem sends_respond (page : Page N E) {calls : List Flight}
    (h : List.Forall₂ Flight.Kept page.calls calls) (call : PageCall) (response : FlowResponse) :
    Sends maps calls (page.respond maps call response) := by
  unfold Page.respond
  split
  · exact .of_calls h
  · exact .of_calls h
  · exact .of_calls h
  · refine .send ?_ ?_
    · exact h
    · rintro graph ⟨⟩
      rfl
  · exact .of_calls h

theorem sends_step (page : Page N E) {a : PageStep N E}
    (ha : ∀ i fault random, a ≠ .serve i fault random) :
    Sends maps page.calls (page.step maps renders a) := by
  have hdone : ∀ i, List.Forall₂ Flight.Kept (page.advance i .done).calls page.calls := fun i =>
    forall₂_modify (fun _ => ⟨rfl, .inl rfl⟩) (fun _ => ⟨rfl, .inr rfl⟩) _ _
  have hrefl := forall₂_kept_refl page.calls
  cases a with
  | act action => exact .of_calls hrefl
  | new confirmed =>
      show Sends maps page.calls (page.handleNew maps confirmed)
      rw [Page.handleNew]
      split <;> exact .of_calls hrefl
  | openFlow slug =>
      refine .send hrefl ?_
      rintro graph ⟨⟩
  | save input =>
      show Sends maps page.calls (page.handleSave maps input)
      rw [Page.handleSave]
      cases page.currentSlug with
      | none => exact sends_handleSaveAs page input
      | some slug =>
          refine .send hrefl ?_
          rintro graph ⟨⟩
          rfl
  | saveAs input => exact sends_handleSaveAs page input
  | rename input =>
      show Sends maps page.calls (page.handleRename input)
      rw [Page.handleRename]
      split
      · refine .send hrefl ?_
        rintro graph ⟨⟩
      · exact .of_calls hrefl
  | commitName draft =>
      show Sends maps page.calls (page.commitName maps draft)
      rw [Page.commitName]
      split
      · exact .of_calls hrefl
      · refine .send ?_ ?_
        · exact hrefl
        · rintro graph ⟨⟩
          rfl
  | serve i fault random => exact absurd rfl (ha i fault random)
  | receive i =>
      show Sends maps page.calls (page.receive maps i)
      rw [Page.receive]
      split
      · exact sends_respond _ (hdone i) _ _
      · exact .of_calls hrefl
  | lose i => exact .of_calls (hdone i)

/-- The calls are kept, so their moments are still theirs. -/
theorem Sends.inv {w : Watched N E} {page' : Page N E} (hinv : w.Inv)
    (h : Sends maps w.page.calls page') :
    Watched.Inv ⟨page', w.moments ++
      List.replicate (page'.calls.length - w.page.calls.length) ⟨toIR maps page'.canvas, none⟩⟩ := by
  obtain ⟨old, sent, hcalls, hkept, hsent⟩ := h
  have hlength : page'.calls.length - w.page.calls.length = sent.length := by
    rw [hcalls, List.length_append, hkept.length_eq, Nat.add_sub_cancel_left]
  rw [hlength, Watched.Inv, hcalls]
  refine List.rel_append ?_ ?_
  · refine forall₂_comp ?_ hkept hinv
    rintro flight' flight m ⟨hcall, hprogress⟩ hm
    refine ⟨hm.object, fun graph hgraph => hm.sent graph (hcall ▸ hgraph),
      fun response hresponse => ?_⟩
    rw [hcall]
    rcases hprogress with hprogress | hprogress
    · exact hm.served response (hprogress ▸ hresponse)
    · rw [hresponse] at hprogress
      cases hprogress
  · rw [← List.map_const', List.forall₂_map_right_iff, List.forall₂_same]
    intro flight hflight
    obtain ⟨hprogress, hgraph⟩ := hsent flight hflight
    refine ⟨⟨_, rfl⟩, hgraph, fun response hresponse => ?_⟩
    rw [hprogress] at hresponse
    cases hresponse

/-! ## Served calls -/

/-- What is stored when a call is answered. -/
theorem answers_of_effect {server server' : FlowStore} {call : PageCall} {fault : Option Fault}
    {random : String} {response : FlowResponse}
    (h : FlowCall.Effect server ⟨call.request, fault, random⟩ response server'.flows)
    (hgraph : ∀ graph, call.graph? = some graph → ∃ members, graph = .obj members) :
    Answers ((answered_slug call response).bind (stored server')) call response := by
  generalize hflows : server'.flows = flows at h
  have hstored : ∀ k : Slug, stored server' k.1 = flows.get? k := fun k => by
    rw [stored_slug, hflows]
  have hbody : ∀ graph, call.graph? = some graph →
      body_graph (some (.obj [("graph", graph)])) = .ok graph := by
    intro graph h
    obtain ⟨members, rfl⟩ := hgraph graph h
    rfl
  cases h with
  | failed status failure => cases call <;> trivial
  | @read slug graph hrequest hget =>
      cases call with
      | loadFlow slug' =>
          cases hrequest
          exact (hstored slug).trans hget
      | _ => trivial
  | @create body slug graph hrequest hcreated _ =>
      cases call with
      | saveNewFlow graph' =>
          cases hrequest
          have heq := (body_graph_of_created hcreated).symm.trans (hbody graph' rfl)
          obtain rfl := Except.ok.inj heq
          exact (hstored slug).trans (Dict.get?_set_self _ _ _)
      | saveFlow slug' graph' => cases hrequest
      | _ => trivial
  | @update body slug graph hrequest hgraph =>
      cases call with
      | saveFlow slug' graph' =>
          cases hrequest
          obtain rfl := Except.ok.inj (hgraph.symm.trans (hbody graph' rfl))
          exact ⟨rfl, (hstored slug).trans (Dict.get?_set_self _ _ _)⟩
      | saveNewFlow graph' => cases hrequest
      | _ => trivial
  | delete hrequest => cases call <;> cases hrequest
  | rename_self hrequest =>
      cases call with
      | saveFlow slug' graph' => cases hrequest
      | saveNewFlow graph' => cases hrequest
      | _ => trivial
  | rename hrequest =>
      cases call with
      | saveFlow slug' graph' => cases hrequest
      | saveNewFlow graph' => cases hrequest
      | _ => trivial

theorem Watched.Inv.step {w : Watched N E} (hinv : w.Inv) (a : PageStep N E) :
    (w.step maps renders a).Inv := by
  by_cases hserve : ∃ i fault random, a = .serve i fault random
  · obtain ⟨i, fault, random, rfl⟩ := hserve
    by_cases hsent : ∃ call, w.page.calls[i]? = some ⟨call, .sent⟩
    · obtain ⟨call, hcall⟩ := hsent
      simp only [Watched.step, FlowPage.Page.step, Page.serve, hcall]
      refine forall₂_modify_both hinv hcall fun m hm => ⟨hm.object, hm.sent, ?_⟩
      rintro response ⟨⟩
      refine answers_of_effect (w.page.server.call_effect renders _) fun graph hgraph => ?_
      rw [hm.sent graph hgraph]
      exact hm.object
    · have hpage : w.page.serve renders i fault random = w.page := by
        unfold Page.serve
        split
        next call hcall => exact absurd ⟨call, hcall⟩ hsent
        next => rfl
      have hstep : w.step maps renders (.serve i fault random) = w := by
        simp only [Watched.step, FlowPage.Page.step, hpage]
        split
        next call hcall => exact absurd ⟨call, hcall⟩ hsent
        next => rfl
      rw [hstep]
      exact hinv
  · have hstep : w.step maps renders a = ⟨w.page.step maps renders a, w.moments ++
        List.replicate ((w.page.step maps renders a).calls.length - w.page.calls.length)
          ⟨toIR maps (w.page.step maps renders a).canvas, none⟩⟩ := by
      cases a with
      | serve i fault random => exact absurd ⟨i, fault, random, rfl⟩ hserve
      | _ => rfl
    rw [hstep]
    refine (sends_step w.page fun i fault random heq => ?_).inv hinv
    exact hserve ⟨i, fault, random, heq⟩

/-! ## Every run -/

/-- A document that is loaded whole is what the canvas then writes. -/
theorem LoadsWhole.toIR_loadIR {canvas : CanvasModel N E} {graph : Json}
    (h : LoadsWhole maps canvas graph) : toIR maps (loadIR maps canvas graph) = graph := by
  have hname : (maps.fromIR graph).name.or canvas.name = (maps.fromIR graph).name := by
    cases hnone : (maps.fromIR graph).name with
    | none => exact h.name hnone
    | some name => rfl
  have hversion : (maps.fromIR graph).schemaVersion.or canvas.schemaVersion =
      (maps.fromIR graph).schemaVersion := by
    cases hnone : (maps.fromIR graph).schemaVersion with
    | none => exact h.version hnone
    | some version => rfl
  refine Eq.trans ?_ h.written
  simp only [loadIR, h.apart, hname, hversion]

theorem Undisturbed.timely {page : Page N E} {m : Moment} {call : PageCall}
    {response : FlowResponse} (hsound : FlagSound maps page)
    (hm : Describes ⟨call, .answered response⟩ m) (h : Undisturbed maps page m call response) :
    Timely maps page call response := by
  have hserved := hm.served response rfl
  cases call with
  | saveFlow slug graph =>
      cases response with
      | saved k =>
          cases hdirty : page.isDirty with
          | false => exact hsound hdirty
          | true =>
              obtain ⟨hdocument, hslug, hfile⟩ := h hdirty
              rw [Timely, Saved, hslug, hdocument, ← hm.sent graph rfl]
              exact hfile.trans hserved.2
      | _ => trivial
  | saveNewFlow graph =>
      cases response with
      | saved k =>
          rw [Timely, h.1, ← hm.sent graph rfl, h.2]
          exact hserved
      | _ => trivial
  | loadFlow slug =>
      cases response with
      | content graph =>
          rw [Timely, h.2.toIR_loadIR, h.1]
          exact hserved
      | _ => trivial
  | renameFlow oldSlug newSlug name =>
      cases response with
      | saved k =>
          intro hclean hname hcurrent
          have hsaved := hsound hclean
          rw [Saved, hcurrent] at hsaved
          rw [h hclean hname hcurrent]
          exact hsaved
      | _ => trivial

theorem Settled.careful {w : Watched N E} (hinv : w.Inv) (hsound : FlagSound maps w.page)
    {a : PageStep N E} (h : Settled maps renders w a) : Careful maps renders w.page a := by
  cases a with
  | receive i =>
      intro call response hcall
      obtain ⟨m, hm, hdescribes⟩ := hinv.exists_moment hcall
      exact (h call response m hcall hm).timely hsound hdescribes
  | _ => exact h

/-- However actions, menu commands, requests and answers interleave, the flag is sound in every
state when all steps are settled. -/
theorem flag_sound_of_settled (maps : Mappers N E) (renders : Json → Bool) (server : FlowStore)
    (l : List (PageStep N E))
    (h : Runs.AllSteps (Watched.step maps renders) (Settled maps renders)
      (.opened maps server) l) :
    ∀ pre post, l = pre ++ post →
      FlagSound maps (Runs.run (Page.step maps renders) (opened maps server) pre) := by
  rintro pre post rfl
  have hpre : Runs.AllSteps (Watched.step maps renders) (Settled maps renders)
      (.opened maps server) pre := by
    rintro before a after rfl
    exact h before a (after ++ post) (by simp)
  have hsound := hpre.invariant (P := fun w => w.Inv ∧ FlagSound maps w.page)
    ⟨.nil, opened_sound server⟩ fun w a hw ha => ⟨hw.1.step a, by
      rw [Watched.page_step]
      exact (step_sound_iff w.page a hw.2).mpr (ha.careful hw.1 hw.2)⟩
  have hpage := hsound.2
  rwa [Watched.page_run] at hpage

/-- Mappers of a canvas whose nodes are a number. -/
def numbered_canvas : Mappers Int Unit where
  nodesToIR := .int
  edgesToIR := fun _ => .obj []
  fromIR := fun graph =>
    { name := (graph.get? "name").bind Json.str?
      paradigm := "functional"
      nodes := match graph.get? "nodes" with
        | some (.int n) => n
        | _ => 0
      edges := () }
  separateOverlappingNodes := id
  no_nodes := 0
  no_edges := ()

/-- Save as `a`, edit, save, start a new flow and open `a` again. -/
def saved_and_opened : List (PageStep Int Unit) :=
  [.saveAs (some "a"), .serve 0 none "", .receive 0, .act (.setNodes 5 ()), .save none,
    .serve 1 none "", .receive 1, .new false, .openFlow "a", .serve 2 none "", .receive 2]

theorem saved_and_opened_sound :
    let page := Runs.run (Page.step numbered_canvas fun _ => true) (opened numbered_canvas {})
      saved_and_opened
    page.isDirty = false ∧ page.currentSlug = some "a" ∧ Saved numbered_canvas page := by
  have hsound := flag_sound_of_settled numbered_canvas (fun _ => true) {} saved_and_opened (by
    simp only [saved_and_opened, Runs.AllSteps.cons_iff]
    refine ⟨trivial, ?_, ?_, ?_, trivial, ?_, ?_, trivial, trivial, ?_, ?_, .nil⟩
    · rintro call ⟨⟩ _ slug ⟨⟩
    · rintro call response m ⟨⟩ ⟨⟩
      exact ⟨rfl, rfl⟩
    · intro _ htracked
      cases htracked
    · rintro call ⟨⟩ hclean
      cases hclean
    · rintro call response m ⟨⟩ ⟨⟩ _
      exact ⟨rfl, rfl, rfl⟩
    · rintro call ⟨⟩ _ slug ⟨⟩
    · rintro call response m ⟨⟩ ⟨⟩
      exact ⟨rfl, rfl, rfl, nofun, fun _ => rfl⟩)
  exact ⟨by decide, by decide, hsound saved_and_opened [] rfl (by decide)⟩

end EmergentFlow.FlowPage
