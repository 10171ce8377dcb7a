import Mathlib.Data.List.Sort
import EmergentFlow.Eval.SchemaCheck
import EmergentFlow.Lib.Dict

/-!
# Data — Http Fetch

Fetching records page by page (`data/http/fetch.py`, with the requests and responses of
`data/http/protocol.py`). One loop serves four kinds of pagination: they differ in the
parameter that asks for a page and in what ends the pages. The client, the parser of `json`,
`str` of a parsed value and pandas are parameters. A fetch is recorded with the requests that
were made, also where it fails.
-/

namespace EmergentFlow.HttpFetch

structure HttpRequest where
  url : String
  method : String := "GET"
  headers : List (String × String) := []
  params : List (String × String) := []
  body : Option String := none
  connection : Option String := none
  timeout_s : Option Rat := none
  deriving DecidableEq, Repr

structure HttpResponse where
  status : Int
  body : String
  url : String := ""
  deriving DecidableEq, Repr

def HttpResponse.ok (response : HttpResponse) : Bool :=
  200 ≤ response.status && response.status < 300

/-- What `http_fetch` raises; `raised` comes from the client or from pandas. -/
inductive HttpFetchError (E : Type) where
  | missing_client
  | pagination (got : String)
  | max_pages (got : Int)
  | cursor_path
  | page_size (pagination : String)
  | status (status : Int) (url preview : String)
  | not_json (status : Int) (preview : String)
  | path_key (json_path part : String) (available : List String)
  | path_type (json_path part type : String)
  | payload (type : String)
  | raised (e : E)
  deriving DecidableEq

/-- What lies outside: the parser, `str` of what it parsed, and the frames of pandas. -/
structure Host (F E : Type) where
  loads : String → Option Json
  str : Json → String
  empty : F
  json_normalize : List Json → Except E F
  data_frame : List Json → Except E F

variable {F E : Type} (host : Host F E)

/-! ## One response -/

/-- The start of a body, as messages show it. -/
def body_preview (limit : Nat) (body : String) : String :=
  String.ofList (body.toList.take limit) ++ if limit < body.length then "..." else ""

/-- `_parse_body`. -/
def parse_body (response : HttpResponse) : Except (HttpFetchError E) Json := do
  Checks.guard response.ok (.status response.status response.url (body_preview 500 response.body))
  Checks.require (host.loads response.body)
    (.not_json response.status (body_preview 200 response.body))

/-- `path.split(".")`. -/
def path_parts (path : String) : List String := (path.toList.splitOn '.').map String.ofList

def walk_path (json_path : String) : List String → Json → Except (HttpFetchError E) Json
  | [], current => .ok current
  | part :: parts, .obj members =>
      match members.lookup part with
      | some value => walk_path json_path parts value
      | none => .error (.path_key json_path part
          ((members.map Prod.fst).insertionSort (· ≤ ·)))
  | part :: _, current => .error (.path_type json_path part (type_name current))

/-- `_select_path`. -/
def select_path (payload : Json) : Option String → Except (HttpFetchError E) Json
  | none => .ok payload
  | some json_path =>
      if json_path = "" then .ok payload else walk_path json_path (path_parts json_path) payload

def walk_cursor : List String → Json → Option Json
  | [], current => some current
  | part :: parts, current => (current.get? part).bind (walk_cursor parts)

/-- `_select_cursor`: a cursor that is absent is like one that is null. -/
def select_cursor (payload : Json) (cursor_path : String) : Option Json :=
  match walk_cursor (path_parts cursor_path) payload with
  | some .null => none
  | found => found

/-- What a selected payload adds to the records. -/
def new_records : Json → Except (HttpFetchError E) (List Json)
  | .arr items => .ok items
  | .obj members => .ok [.obj members]
  | records => .error (.payload (type_name records))

/-- `_records_to_frame`. -/
def records_to_frame (flatten : Bool) : Json → Except (HttpFetchError E) F
  | .arr [] => .ok host.empty
  | .arr records =>
      (if flatten then host.json_normalize records else host.data_frame records).mapError .raised
  | .obj members =>
      (if flatten then host.json_normalize [.obj members]
        else host.data_frame [.obj members]).mapError .raised
  | records => .error (.payload (type_name records))

/-! ## The arguments -/

structure Args where
  url : String
  method : String := "GET"
  headers : Option (Dict String String) := none
  params : Option (Dict String String) := none
  body : Option String := none
  connection : Option String := none
  timeout_s : Option Rat := none
  json_path : Option String := none
  flatten : Bool := true
  pagination : String := "none"
  cursor_param : String := "cursor"
  cursor_path : Option String := none
  page_param : String := "page"
  offset_param : String := "offset"
  page_size : Option Int := none
  max_pages : Int := 10

/-- A kind of pagination with what it cannot do without. -/
inductive Mode where
  | none
  | cursor (cursor_path : String)
  | offset (page_size : Int)
  | page
  deriving DecidableEq, Repr

/-- `PAGINATION_MODES`. -/
def PAGINATION_MODES : List String := ["none", "cursor", "offset", "page"]

namespace Args

variable (args : Args)

/-- The checks on the arguments, in their order. -/
def check : Except (HttpFetchError E) Mode := do
  Checks.guard (PAGINATION_MODES.contains args.pagination) (.pagination args.pagination)
  Checks.guard (decide (1 ≤ args.max_pages)) (.max_pages args.max_pages)
  if args.pagination = "cursor" then
    let cursor_path ← Checks.require args.cursor_path .cursor_path
    pure (.cursor cursor_path)
  else if args.pagination = "offset" then
    let page_size ← Checks.require args.page_size (.page_size args.pagination)
    pure (.offset page_size)
  else if args.pagination = "page" then
    let _ ← Checks.require args.page_size (.page_size args.pagination)
    pure .page
  else pure .none

/-- `sorted(pairs.items())`. -/
def sorted_items (pairs : Dict String String) : List (String × String) :=
  pairs.entries.insertionSort fun a b => a.1 < b.1 ∨ a.1 = b.1 ∧ a.2 ≤ b.2

/-- The parameters that ask for a page. -/
def page_params (mode : Mode) (page_index : Nat) (next_cursor : Option String) :
    Dict String String :=
  let page_params := args.params.getD Dict.empty
  match mode with
  | .none => page_params
  | .cursor _ =>
      match next_cursor with
      | some cursor =>
          if 0 < page_index then page_params.set args.cursor_param cursor else page_params
      | none => page_params
  | .offset page_size => page_params.set args.offset_param (page_index * page_size : Int).repr
  | .page => page_params.set args.page_param (page_index + 1).repr

def request (mode : Mode) (page_index : Nat) (next_cursor : Option String) : HttpRequest where
  url := args.url
  method := args.method
  headers := sorted_items (args.headers.getD Dict.empty)
  params := sorted_items (args.page_params mode page_index next_cursor)
  body := args.body
  connection := args.connection
  timeout_s := args.timeout_s

end Args

/-! ## The pages -/

/-- The cursor of the next page; `none` when there is no next page. -/
def advance (mode : Mode) (parsed records : Json) (next_cursor : Option String) :
    Option (Option String) :=
  match mode with
  | .none => none
  | .cursor cursor_path =>
      (select_cursor parsed cursor_path).map fun cursor => some (host.str cursor)
  | .offset _ | .page =>
      match records with
      | .arr [] => none
      | _ => some next_cursor

/-- The local variables of the loop, with the requests that were made. -/
structure Pager where
  next_cursor : Option String := none
  all_records : List Json := []
  requests : List HttpRequest := []

variable (args : Args) (fetch : HttpRequest → Except E HttpResponse)

/-- One page: its document, what is selected in it, and the records of that. -/
def fetch_page (request : HttpRequest) : Except (HttpFetchError E) (Json × Json × List Json) := do
  let response ← (fetch request).mapError .raised
  let parsed ← parse_body host response
  let records ← select_path parsed args.json_path
  let new ← new_records records
  pure (parsed, records, new)

/-- The loop over the pages, of which at most `pages` are left. -/
def loop (mode : Mode) : (pages page_index : Nat) → Pager →
    List HttpRequest × Except (HttpFetchError E) (List Json)
  | 0, _, st => (st.requests, .ok st.all_records)
  | pages + 1, page_index, st =>
      let request := args.request mode page_index st.next_cursor
      let requests := st.requests ++ [request]
      match fetch_page host args fetch request with
      | .error e => (requests, .error e)
      | .ok (parsed, records, new) =>
          let all_records := st.all_records ++ new
          match advance host mode parsed records st.next_cursor with
          | none => (requests, .ok all_records)
          | some next_cursor =>
              loop mode pages (page_index + 1) { next_cursor, all_records, requests }

/-- `http_fetch`, with the requests it makes. -/
def http_fetch (client : Option (HttpRequest → Except E HttpResponse)) :
    List HttpRequest × Except (HttpFetchError E) F :=
  match client with
  | none => ([], .error .missing_client)
  | some fetch =>
      match args.check with
      | .error e => ([], .error e)
      | .ok mode =>
          let pages := loop host args fetch mode args.max_pages.toNat 0 {}
          (pages.1, pages.2.bind fun all_records =>
            records_to_frame host args.flatten (.arr all_records))

end EmergentFlow.HttpFetch
