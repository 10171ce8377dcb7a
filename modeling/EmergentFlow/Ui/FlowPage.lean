import EmergentFlow.Lib.Runs
import EmergentFlow.Server.Flows
import EmergentFlow.Ui.Widgets

/-!
# Ui — FlowPage

The canvas with its file menu (`ui/src/io/IRToolbar.tsx`), the store of where
a flow lives (`ui/src/io/flowStore.ts`) and the flow routes of the server.
Requests are sent, served and answered; each of the three happens at any
moment after the one before, whatever else is under way.

Of the graph store (`ui/src/store/graphStore.ts`) the fields that `toIR`
writes are modelled. The records of nodes and edges are types of their own:
every action on them sets new records, and what is in them matters to the
mappers of `ui/src/store/ir.ts` only.
-/

namespace EmergentFlow.FlowPage

open Widgets (js_trim)

/-! ## The canvas -/

/-- A field of a JavaScript object that may be absent, `null` or a string. -/
abbrev NullableField : Type := Option (Option String)

/-- A param of the flow. -/
structure ParamModel where
  name : String
  typeToken : String
  value : Json
  default : Option Json := none
  ref : NullableField := none
  description : NullableField := none

/-- The members of an absent, a `null` or a present field. -/
def nullableMember (key : String) (field : NullableField) : List (String × Json) :=
  (field.map fun value => (key, (value.map Json.str).getD .null)).toList

/-- `paramToIR`. -/
def ParamModel.toIR (param : ParamModel) : Json :=
  .obj ([("name", .str param.name), ("type_token", .str param.typeToken), ("value", param.value)] ++
    (param.default.map fun value => ("default", value)).toList ++
    nullableMember "ref" param.ref ++ nullableMember "description" param.description)

/-- The model of the canvas; `N` are its nodes and `E` its edges, by id. -/
structure CanvasModel (N E : Type) where
  schemaVersion : Option Int := none
  name : Option String := none
  paradigm : String
  nodes : N
  edges : E
  params : Option (Dict String ParamModel) := none

/-- The mappers of nodes and edges, the reader of a document, and what
loading does to nodes that overlap. -/
structure Mappers (N E : Type) where
  nodesToIR : N → Json
  edgesToIR : E → Json
  fromIR : Json → CanvasModel N E
  separateOverlappingNodes : N → N
  no_nodes : N
  no_edges : E

section Canvas

variable {N E : Type} (maps : Mappers N E)

/-- `toIR`: the document of a model. -/
def toIR (model : CanvasModel N E) : Json :=
  .obj ([("paradigm", .str model.paradigm), ("nodes", maps.nodesToIR model.nodes),
      ("edges", maps.edgesToIR model.edges)] ++
    (model.name.map fun name => ("name", .str name)).toList ++
    (model.schemaVersion.map fun version => ("schema_version", .int version)).toList ++
    (model.params.map fun params =>
      ("params", .obj (params.entries.map fun p => (p.1, p.2.toIR)))).toList)

/-- `reset`. The name and the schema version are not among what it sets. -/
def reset (model : CanvasModel N E) : CanvasModel N E :=
  { model with
    paradigm := "functional", nodes := maps.no_nodes, edges := maps.no_edges, params := none }

/-- `loadIR`. A name or a schema version that the document lacks stays that
of the model before. -/
def loadIR (model : CanvasModel N E) (graph : Json) : CanvasModel N E :=
  let loaded := maps.fromIR graph
  { loaded with
    schemaVersion := loaded.schemaVersion.or model.schemaVersion
    name := loaded.name.or model.name
    nodes := maps.separateOverlappingNodes loaded.nodes }

end Canvas

/-! ## Actions -/

/-- The actions of the graph store, by what they set. -/
inductive GraphAction (N E : Type) where
  /-- every action on nodes or edges -/
  | setNodes (nodes : N) (edges : E)
  | setName (name : String)
  | addGraphParam
  | setGraphParamValue (name : String) (value : Json)
  | setGraphParamType (name typeToken : String)
  | setGraphParamDescription (name description : String)
  | removeGraphParam (name : String)
  | loadIR (graph : Json)
  /-- `loadModel`, `undo`, `redo` -/
  | loadModel (model : CanvasModel N E)
  | reset
  /-- groups' labels, history, and actions that find nothing to do -/
  | other

/-- The first of `param1`, `param2`, … that is not taken. -/
def freshParamName (existing : List String) : String :=
  let names := (List.range' 1 (existing.length + 1)).map fun n => "param" ++ toString n
  (names.find? (· ∉ existing)).getD "param1"

section Params

variable (params : Option (Dict String ParamModel))

def addGraphParam : Option (Dict String ParamModel) :=
  let existing := params.getD .empty
  let name := freshParamName existing.keys
  some (existing.set name
    { name, typeToken := "str", value := .null, description := some (some "") })

/-- The three setters: a param that is not there stays away. -/
def updateGraphParam (name : String) (f : ParamModel → ParamModel) :
    Option (Dict String ParamModel) :=
  match (params.getD .empty).get? name with
  | none => params
  | some existing => some ((params.getD .empty).set name (f existing))

def removeGraphParam (name : String) : Option (Dict String ParamModel) :=
  match (params.getD .empty).get? name with
  | none => params
  | some _ => some ((params.getD .empty).erase name)

end Params

section Actions

variable {N E : Type} (maps : Mappers N E)

/-- The model after an action. -/
def GraphAction.apply (model : CanvasModel N E) : GraphAction N E → CanvasModel N E
  | .setNodes nodes edges => { model with nodes, edges }
  | .setName name => { model with name := some name }
  | .addGraphParam => { model with params := FlowPage.addGraphParam model.params }
  | .setGraphParamValue name value =>
      { model with params := updateGraphParam model.params name fun p => { p with value } }
  | .setGraphParamType name typeToken =>
      { model with params := updateGraphParam model.params name fun p => { p with typeToken } }
  | .setGraphParamDescription name description =>
      { model with
        params := updateGraphParam model.params name fun p =>
          { p with description := some (some description) } }
  | .removeGraphParam name => { model with params := FlowPage.removeGraphParam model.params name }
  | .loadIR graph => FlowPage.loadIR maps model graph
  | .loadModel loaded => loaded
  | .reset => FlowPage.reset maps model
  | .other => model

/-- What the subscriber of `startDirtyTracking` notices: new records of nodes
or edges, or another name or paradigm. -/
def GraphAction.tracked (model : CanvasModel N E) : GraphAction N E → Bool
  | .setNodes _ _ => true
  | .setName name => model.name ≠ some name
  | .loadIR _ => true
  | .loadModel _ => true
  | .reset => true
  | _ => false

end Actions

/-! ## Requests -/

/-- A call of the flow store that is under way, with what is left to do. -/
inductive PageCall where
  | saveFlow (slug : String) (graph : Json)
  | saveNewFlow (graph : Json)
  | loadFlow (slug : String)
  | renameFlow (oldSlug newSlug name : String)

/-- The request of a call. -/
def PageCall.request : PageCall → FlowRequest
  | .saveFlow slug graph => .update_flow slug (some (.obj [("graph", graph)]))
  | .saveNewFlow graph => .create_flow (some (.obj [("graph", graph)]))
  | .loadFlow slug => .get_flow slug
  | .renameFlow oldSlug newSlug _ =>
      .rename_flow oldSlug (some (.obj [("new_slug", .str newSlug)]))

/-- How far a call is. -/
inductive Progress where
  | sent
  | answered (response : FlowResponse)
  | done

structure Flight where
  call : PageCall
  progress : Progress := .sent

/-- The client's `slugify`. -/
def client_slugify (input : String) : String :=
  let chars := hyphenate false ((js_trim input.toList).flatMap py_lower)
  let slug := String.ofList ((chars.dropWhile (· = '-')).rdropWhile (· = '-'))
  if slug = "" then "flow" else slug

/-! ## The page -/

structure Page (N E : Type) where
  server : FlowStore
  canvas : CanvasModel N E
  currentSlug : Option String := none
  isDirty : Bool := false
  calls : List Flight := []

inductive PageStep (N E : Type) where
  | act (action : GraphAction N E)
  | new (confirmed : Bool)
  | openFlow (slug : String)
  | save (input : Option String)
  | saveAs (input : Option String)
  | rename (input : Option String)
  | commitName (draft : String)
  /-- the server serves a request -/
  | serve (i : Nat) (fault : Option Fault) (random : String)
  /-- an answer arrives -/
  | receive (i : Nat)
  /-- a request or its answer is lost -/
  | lose (i : Nat)

section Page

variable {N E : Type} (maps : Mappers N E)

namespace Page

variable (page : Page N E)

/-- An action of the graph store and its subscriber. -/
def act (action : GraphAction N E) : Page N E :=
  { page with
    canvas := action.apply maps page.canvas
    isDirty := page.isDirty || action.tracked page.canvas }

def send (call : PageCall) : Page N E := { page with calls := page.calls ++ [⟨call, .sent⟩] }

/-- `handleNew`. -/
def handleNew (confirmed : Bool) : Page N E :=
  if page.isDirty && !confirmed then page
  else { page.act maps .reset with currentSlug := none, isDirty := false }

/-- The answer to a prompt, trimmed; nothing when it is blank. -/
def prompted (input : Option String) : Option String :=
  (input.map fun text => String.ofList (js_trim text.toList)).filter (· ≠ "")

/-- `handleSaveAs`. -/
def handleSaveAs (input : Option String) : Page N E :=
  match prompted input with
  | none => page
  | some name =>
      let page := page.act maps (.setName name)
      page.send (.saveNewFlow (toIR maps page.canvas))

/-- `handleSave`. -/
def handleSave (input : Option String) : Page N E :=
  match page.currentSlug with
  | none => page.handleSaveAs maps input
  | some slug => page.send (.saveFlow slug (toIR maps page.canvas))

/-- `handleRename`, up to the request. -/
def handleRename (input : Option String) : Page N E :=
  match page.currentSlug, prompted input with
  | some slug, some name => page.send (.renameFlow slug (client_slugify name) name)
  | _, _ => page

/-- `commitName`. -/
def commitName (draft : String) : Page N E :=
  let page := page.act maps (.setName (String.ofList (js_trim draft.toList)))
  match page.currentSlug with
  | none => page
  | some slug => page.send (.saveFlow slug (toIR maps page.canvas))

/-- What a call does with its answer. An error is shown and changes nothing
else. -/
def respond (call : PageCall) (response : FlowResponse) : Page N E :=
  match call, response with
  | .saveFlow _ _, .saved _ => { page with isDirty := false }
  | .saveNewFlow _, .saved slug => { page with currentSlug := some slug.1, isDirty := false }
  | .loadFlow slug, .content graph =>
      { page.act maps (.loadIR graph) with currentSlug := some slug, isDirty := false }
  -- the renamed flow is saved again, for the name in its document
  | .renameFlow oldSlug newSlug name, .saved slug =>
      let page : Page N E :=
        { page with
          currentSlug := if page.currentSlug = some oldSlug then some slug.1 else page.currentSlug }
      let page := page.act maps (.setName name)
      page.send (.saveFlow newSlug (toIR maps page.canvas))
  | _, _ => page

/-- A call gets on. -/
def advance (i : Nat) (progress : Progress) : Page N E :=
  { page with calls := page.calls.modify i fun flight => { flight with progress } }

/-- The server serves a request that was sent. -/
def serve (renders : Json → Bool) (i : Nat) (fault : Option Fault) (random : String) :
    Page N E :=
  match page.calls[i]? with
  | some ⟨call, .sent⟩ =>
      let (response, server) := page.server.call renders ⟨call.request, fault, random⟩
      { page.advance i (.answered response) with server }
  | _ => page

/-- The answer to a call arrives. -/
def receive (i : Nat) : Page N E :=
  match page.calls[i]? with
  | some ⟨call, .answered response⟩ => (page.advance i .done).respond maps call response
  | _ => page

def step (renders : Json → Bool) (page : Page N E) : PageStep N E → Page N E
  | .act action => page.act maps action
  | .new confirmed => page.handleNew maps confirmed
  | .openFlow slug => page.send (.loadFlow slug)
  | .save input => page.handleSave maps input
  | .saveAs input => page.handleSaveAs maps input
  | .rename input => page.handleRename input
  | .commitName draft => page.commitName maps draft
  | .serve i fault random => page.serve renders i fault random
  | .receive i => page.receive maps i
  | .lose i => page.advance i .done

end Page

/-- A page that was just opened. -/
def opened (server : FlowStore) : Page N E where
  server
  canvas := { paradigm := "functional", nodes := maps.no_nodes, edges := maps.no_edges }

end Page

end EmergentFlow.FlowPage
