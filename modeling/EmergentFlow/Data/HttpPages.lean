import EmergentFlow.Data.HttpFetch
import EmergentFlow.Lib.CompactJson
import EmergentFlow.Lib.Pages

/-!
# Data — Http Pages

What `http_fetch` makes of a server that has its records in pages. The server answers the
request for each page, up to the first page that ends the pages: the empty page behind the last
one when pages are asked for by offset or by number, the page without a cursor otherwise.

The kinds of pagination share one loop. What a kind contributes is the document of each page
and whether it leads to another one (`Served`), and from that the loop is followed once
(`loop_eq`). The size of the pages may be any: with a size that is not positive there are no
pages to fetch (`Pages.count`), the first request shows it, and none is repeated.
-/

namespace EmergentFlow.HttpFetch

variable {F E : Type} {host : Host F E} {args : Args}
  {fetch : HttpRequest → Except E HttpResponse} {mode : Mode}

/-! ## One page -/

/-- The client answers the request with a document in which the page is selected. -/
def Answers (host : Host F E) (args : Args) (fetch : HttpRequest → Except E HttpResponse)
    (request : HttpRequest) (parsed : Json) (page : List Json) : Prop :=
  ∃ response, fetch request = .ok response ∧ response.ok = true ∧
    host.loads response.body = some parsed ∧
    select_path (E := E) parsed args.json_path = .ok (.arr page)

theorem Answers.fetch_page {request : HttpRequest} {parsed : Json} {page : List Json}
    (h : Answers host args fetch request parsed page) :
    fetch_page host args fetch request = .ok (parsed, .arr page, page) := by
  obtain ⟨response, hfetch, hok, hloads, hselect⟩ := h
  have hparse : parse_body host response = .ok parsed := by
    rw [parse_body, hok, hloads]
    rfl
  have hresponse : (fetch request).mapError HttpFetchError.raised = .ok response := by
    rw [hfetch]
    rfl
  refine Checks.bind_eq_ok.mpr ⟨response, hresponse, ?_⟩
  refine Checks.bind_eq_ok.mpr ⟨parsed, hparse, ?_⟩
  exact Checks.bind_eq_ok.mpr ⟨.arr page, hselect, rfl⟩

/-! ## The loop -/

/-- Every page up to the last one is answered with its records and leads to the next page, the
last one to none. -/
structure Served (host : Host F E) (args : Args) (fetch : HttpRequest → Except E HttpResponse)
    (mode : Mode) (cursors : Nat → Option String) (pages : Nat → List Json) (last : Nat) : Prop where
  start : cursors 0 = none
  answers : ∀ k ≤ last, ∃ parsed,
    Answers host args fetch (args.request mode k (cursors k)) parsed (pages k) ∧
      advance host mode parsed (.arr (pages k)) (cursors k) =
        if k < last then some (cursors (k + 1)) else none

/-- From page `k` on the loop asks for the pages up to the last one or to the limit, and takes
the records of each. -/
theorem loop_eq {cursors : Nat → Option String} {pages : Nat → List Json} {last : Nat}
    (h : Served host args fetch mode cursors pages last) (n k : Nat) (hk : k ≤ last) (st : Pager)
    (hst : st.next_cursor = cursors k) :
    loop host args fetch mode n k st =
      (st.requests ++ (List.range' k (min n (last + 1 - k))).map fun j =>
          args.request mode j (cursors j),
        .ok (st.all_records ++ (List.range' k (min n (last + 1 - k))).flatMap pages)) := by
  induction n generalizing k st with
  | zero => simp [loop]
  | succ n ih =>
      obtain ⟨parsed, hanswers, hadvance⟩ := h.answers k hk
      rw [loop, hst, hanswers.fetch_page]
      dsimp only
      rw [hadvance]
      by_cases hlast : k < last
      · have hleft : min (n + 1) (last + 1 - k) = min n (last + 1 - (k + 1)) + 1 := by omega
        rw [if_pos hlast, hleft, List.range'_succ]
        dsimp only
        rw [ih (k + 1) hlast _ rfl]
        simp
      · have hleft : min (n + 1) (last + 1 - k) = 1 := by omega
        rw [if_neg hlast, hleft]
        simp

/-! ## Servers with pages -/

/-- The text that asks for a page: that of the cursor of the page before. -/
def cursor_text (host : Host F E) (cursors : Nat → Json) : Nat → Option String
  | 0 => none
  | k + 1 => some (host.str (cursors k))

/-- The server has its records in these pages: `asked` is the request for a page, and `last` the
first page that ends them. Under an offset or a number it has a list cut into pages of the page
size, whatever that is. With cursors the pages are as they are, each page but the last gives the
cursor that leads to the next one, and the last gives none or null. -/
inductive Paged (host : Host F E) (args : Args) (fetch : HttpRequest → Except E HttpResponse) :
    (asked : Nat → HttpRequest) → List (List Json) → (last : Nat) → Prop
  | offset {size : Int} {records : List Json} (hmode : args.pagination = "offset")
      (hsize : args.page_size = some size)
      (hserved : ∀ k ≤ Pages.count size records, ∃ parsed, Answers host args fetch
        (args.request (.offset size) k none) parsed (Pages.page size records k)) :
      Paged host args fetch (args.request (.offset size) · none) (Pages.split size records)
        (Pages.count size records)
  | page {size : Int} {records : List Json} (hmode : args.pagination = "page")
      (hsize : args.page_size = some size)
      (hserved : ∀ k ≤ Pages.count size records, ∃ parsed, Answers host args fetch
        (args.request .page k none) parsed (Pages.page size records k)) :
      Paged host args fetch (args.request .page · none) (Pages.split size records)
        (Pages.count size records)
  | cursor {path : String} {cursors : Nat → Json} {pages : List (List Json)}
      (hmode : args.pagination = "cursor") (hpath : args.cursor_path = some path)
      (hne : pages ≠ [])
      (hserved : ∀ k < pages.length, ∃ parsed, Answers host args fetch
          (args.request (.cursor path) k (cursor_text host cursors k)) parsed (pages[k]?.getD []) ∧
        select_cursor parsed path = if k + 1 < pages.length then some (cursors k) else none) :
      Paged host args fetch (fun k => args.request (.cursor path) k (cursor_text host cursors k))
        pages (pages.length - 1)

/-- Under an offset or a number, a page leads to the next one when it has records. -/
theorem served_of_numbered {size : Int} {records : List Json}
    (hadvance : ∀ parsed page, advance host mode parsed (.arr page) none =
      if page = [] then none else some none)
    (hserved : ∀ k ≤ Pages.count size records, ∃ parsed, Answers host args fetch
      (args.request mode k none) parsed (Pages.page size records k)) :
    Served host args fetch mode (fun _ => none) (fun k => (Pages.split size records)[k]?.getD [])
      (Pages.count size records) := by
  refine ⟨rfl, fun k hk => ?_⟩
  obtain ⟨parsed, hanswers⟩ := hserved k hk
  rw [Pages.getElem?_split]
  refine ⟨parsed, hanswers, ?_⟩
  have hmore : Pages.page size records k = [] ↔ ¬ k < Pages.count size records := by
    rw [Pages.page_eq_nil_iff, Nat.not_lt]
  rw [hadvance]
  by_cases hlast : k < Pages.count size records
  · rw [if_pos hlast, if_neg (fun hnil => hmore.mp hnil hlast)]
  · rw [if_neg hlast, if_pos (hmore.mpr hlast)]

theorem advance_numbered (hmode : (∃ size, mode = .offset size) ∨ mode = .page) (parsed : Json)
    (page : List Json) : advance host mode parsed (.arr page) none =
      if page = [] then none else some none := by
  rcases hmode with ⟨size, rfl⟩ | rfl <;> cases page <;> rfl

/-- Whatever the kind of pagination: what is checked, served and asked for. -/
theorem Paged.served {asked : Nat → HttpRequest} {pages : List (List Json)} {last : Nat}
    (h : Paged host args fetch asked pages last) (hmax : 1 ≤ args.max_pages) :
    ∃ mode cursors, args.check (E := E) = .ok mode ∧
      (asked = fun k => args.request mode k (cursors k)) ∧ pages.length ≤ last + 1 ∧
      Served host args fetch mode cursors (fun k => pages[k]?.getD []) last := by
  have hguard : Checks.guard (decide (1 ≤ args.max_pages))
      (HttpFetchError.max_pages (E := E) args.max_pages) = .ok () :=
    Checks.guard_eq_ok.mpr (decide_eq_true hmax)
  cases h with
  | @offset size records hmode hsize hserved =>
      refine ⟨.offset size, fun _ => none, ?_, rfl, ?_, ?_⟩
      · simp only [Args.check, hmode, hguard, hsize]
        rfl
      · rw [Pages.length_split]
        omega
      · exact served_of_numbered (advance_numbered (.inl ⟨size, rfl⟩)) hserved
  | @page size records hmode hsize hserved =>
      refine ⟨.page, fun _ => none, ?_, rfl, ?_, ?_⟩
      · simp only [Args.check, hmode, hguard, hsize]
        rfl
      · rw [Pages.length_split]
        omega
      · exact served_of_numbered (advance_numbered (.inr rfl)) hserved
  | @cursor path cursors pages hmode hpath hne hserved =>
      have hpos := List.length_pos_iff.mpr hne
      refine ⟨.cursor path, cursor_text host cursors, ?_, rfl, by omega, rfl, fun k hk => ?_⟩
      · simp only [Args.check, hmode, hguard, hpath]
        rfl
      · obtain ⟨parsed, hanswers, hcursor⟩ := hserved k (by omega)
        refine ⟨parsed, hanswers, ?_⟩
        rw [advance, hcursor]
        -- the last page has no cursor, and there the loop ends
        by_cases hlast : k + 1 < pages.length
        · rw [if_pos hlast, if_pos (by omega)]
          rfl
        · rw [if_neg hlast, if_neg (by omega)]
          rfl

/-! ## The law -/

/-- The records of the first pages, one after the other. -/
theorem flatMap_getD (pages : List (List Json)) (n : Nat) :
    (List.range n).flatMap (fun k => pages[k]?.getD []) = (pages.take n).flatten := by
  induction n with
  | zero => simp
  | succ n ih =>
      rw [List.range_succ, List.flatMap_append, ih, List.take_add_one]
      cases hpage : pages[n]? <;> simp [hpage]

theorem http_fetch_eq {asked : Nat → HttpRequest} {pages : List (List Json)} {last : Nat}
    (h : Paged host args fetch asked pages last) (hmax : 1 ≤ args.max_pages) :
    http_fetch host args (some fetch) =
      ((List.range (min args.max_pages.toNat (last + 1))).map asked,
        records_to_frame host args.flatten
          (.arr (pages.take (min args.max_pages.toNat pages.length)).flatten)) := by
  obtain ⟨mode, cursors, hcheck, hasked, hlength, hserved⟩ := h.served hmax
  have hloop := loop_eq hserved args.max_pages.toNat 0 (Nat.zero_le _) {} hserved.start.symm
  have htake : pages.take (min args.max_pages.toNat (last + 1)) =
      pages.take (min args.max_pages.toNat pages.length) := by
    rw [List.take_eq_take_iff]
    omega
  rw [http_fetch]
  dsimp only
  rw [hcheck]
  dsimp only
  rw [hloop, hasked, ← htake, ← flatMap_getD, List.range_eq_range', Nat.sub_zero]
  rfl

/-- With a limit that is no lower than the number of its pages a list is fetched as a whole. -/
theorem fetches_all_records {asked : Nat → HttpRequest} {size : Int} {records : List Json}
    {last : Nat} (h : Paged host args fetch asked (Pages.split size records) last)
    (hsize : 0 < size) (hmax : 1 ≤ args.max_pages)
    (hall : Pages.count size records ≤ args.max_pages.toNat) :
    (http_fetch host args (some fetch)).2 =
      records_to_frame host args.flatten (.arr records) := by
  rw [http_fetch_eq h hmax, Pages.length_split, Nat.min_eq_right hall, ← Pages.length_split,
    List.take_length, Pages.flatten_split hsize]

/-- `http_fetch` returns the frame of the first pages, up to the limit, one after the other. It
makes one request a page, in order, at most as many as the limit, and none behind the first page
that ends them. -/
theorem pagination_law {asked : Nat → HttpRequest} {pages : List (List Json)} {last : Nat}
    (h : Paged host args fetch asked pages last) (hmax : 1 ≤ args.max_pages) :
    let fetched := http_fetch host args (some fetch)
    fetched.2 = records_to_frame host args.flatten
        (.arr (pages.take (min args.max_pages.toNat pages.length)).flatten) ∧
      fetched.1 = (List.range fetched.1.length).map asked ∧
      (fetched.1.length : Int) ≤ args.max_pages ∧ fetched.1.length ≤ last + 1 := by
  dsimp only
  rw [http_fetch_eq h hmax]
  simp only [List.length_map, List.length_range, true_and]
  omega

/-! ## Two servers -/

def small_record (i : Int) : Json := .obj [("a", .int i)]

def five_records : List Json := [1, 2, 3, 4, 5].map small_record

/-- The records two by two, and an empty page behind them. -/
def numbered_page (k : Nat) : Json := .arr (Pages.page 2 five_records k)

/-- Two pages, of which the first leads to the second. -/
def linked_page : Nat → Json
  | 0 => .obj [("items", .arr [small_record 1, small_record 2]), ("next", .str "b")]
  | _ => .obj [("items", .arr [small_record 3]), ("next", .null)]

def small_text (value : Json) : String := CompactJson.dumps (fun _ => "") value

/-- A parser of the texts of these pages, and frames that are lists of records. -/
def small_host : Host (List Json) Empty where
  loads body := ((List.range 4).map numbered_page ++ [linked_page 0, linked_page 1]).find? fun page =>
    small_text page = body
  str
    | .str s => s
    | .int i => i.repr
    | _ => ""
  empty := []
  json_normalize := .ok
  data_frame := .ok

def numbered_args : Args where
  url := "http://example.com"
  pagination := "page"
  page_size := some 2
  max_pages := 2

def numbered_fetch (request : HttpRequest) : Except Empty HttpResponse :=
  let k := ["1", "2", "3"].findIdx fun n => request.params = [("page", n)]
  .ok { status := 200, body := small_text (numbered_page k) }

def linked_args : Args where
  url := "http://example.com"
  json_path := some "items"
  pagination := "cursor"
  cursor_path := some "next"

def linked_fetch (request : HttpRequest) : Except Empty HttpResponse :=
  let k := if request.params = [("cursor", "b")] then 1 else 0
  .ok { status := 200, body := small_text (linked_page k) }

/-- The limit cuts the five records after two pages; the cursor leads through both pages. -/
theorem pagination_law_pages :
    (let fetched := http_fetch small_host numbered_args (some numbered_fetch)
     fetched.2 = records_to_frame small_host true (.arr ([1, 2, 3, 4].map small_record)) ∧
       (fetched.1.length : Int) ≤ 2) ∧
    let fetched := http_fetch small_host linked_args (some linked_fetch)
    fetched.2 = records_to_frame small_host true (.arr ([1, 2, 3].map small_record)) ∧
      fetched.1.length ≤ 2 := by
  have hnumbered : Paged small_host numbered_args numbered_fetch
      (numbered_args.request .page · none) (Pages.split 2 five_records)
      (Pages.count 2 five_records) := by
    refine .page rfl rfl fun k hk => ?_
    have hcases : k = 0 ∨ k = 1 ∨ k = 2 ∨ k = 3 := by
      have hcount : Pages.count 2 five_records = 3 := rfl
      omega
    rcases hcases with rfl | rfl | rfl | rfl
    all_goals exact ⟨_, _, rfl, rfl, rfl, rfl⟩
  have hlinked : Paged small_host linked_args linked_fetch
      (fun k => linked_args.request (.cursor "next") k (cursor_text small_host (fun _ => .str "b") k))
      [[small_record 1, small_record 2], [small_record 3]] 1 := by
    refine .cursor rfl rfl (by simp) fun k hk => ?_
    have hcases : k = 0 ∨ k = 1 := by
      rw [List.length_cons, List.length_singleton] at hk
      omega
    rcases hcases with rfl | rfl
    all_goals exact ⟨_, ⟨_, rfl, rfl, rfl, rfl⟩, rfl⟩
  have hfirst := pagination_law hnumbered (by decide)
  have hsecond := pagination_law hlinked (by decide)
  exact ⟨⟨hfirst.1, hfirst.2.2.1⟩, hsecond.1, hsecond.2.2.2⟩

end EmergentFlow.HttpFetch
