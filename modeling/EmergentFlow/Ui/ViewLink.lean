import EmergentFlow.Lib.Decimal
import EmergentFlow.Lib.Dict
import EmergentFlow.Lib.Groups
import EmergentFlow.Lib.Json
import EmergentFlow.Lib.Percent
import EmergentFlow.Lib.Text
import EmergentFlow.Ui.Trace

/-!
# Ui — ViewLink

The deep link of a canvas view. The canvas writes and reads the hash
(`ui/src/io/viewLink.ts`), and the tools of an agent write it too
(`build_view_url` of `collab/mcp.py`), with another encoder of another library.

Both encoders escape the same characters (`encodeId_eq`, `encode_view_id_eq`), none of
which is a separator, so a hash is read back field by field (`get?_params`). What a
link then says is the normal form of the view.
-/

namespace EmergentFlow.ViewLink

open Percent (CodePoint Text text encode decode)
open Tracing (TraceDirection)

/-! ## The view -/

structure ViewRoute where
  from_ : Text
  to_ : Text
  deriving DecidableEq, Repr

/-- A view; a field that is absent reads as its empty value. -/
structure ViewState where
  focus : List Text := []
  reach : Option TraceDirection := none
  route : Option ViewRoute := none
  lens : List Text := []
  edge : Option Text := none
  proposal : Option Text := none
  review : Option Text := none
  tour : Option Text := none
  step : Option JsonFloat := none
  deriving DecidableEq, Repr

def ViewState.withStep (state : ViewState) (step : Option JsonFloat) : ViewState :=
  { state with step }

/-- `Number.MAX_SAFE_INTEGER`. -/
def MAX_SAFE_INTEGER : Nat := 2 ^ 53 - 1

def isSafeInteger : JsonFloat → Bool
  | .finite x => x.isInt && x.num.natAbs ≤ MAX_SAFE_INTEGER
  | _ => false

def nonnegative : JsonFloat → Bool
  | .finite x => 0 ≤ x
  | .infinity negative => !negative
  | .nan => false

/-- What a condition takes for true of an id. -/
def truthy (id : Option Text) : Option Text := id.filter (· ≠ [])

/-! ## Two encoders -/

def alphanumeric_or (marks : String) (c : Char) : Bool := c.isAlphanum || marks.toList.contains c

/-- `encodeURIComponent`. -/
def encodeURIComponent (s : Text) : Option Text := encode (alphanumeric_or "-_.!~*'()") s

def encodeId (id : Text) : Option Text :=
  (encodeURIComponent id).map (·.flatMap (Percent.escapeMore "!'()*~".toList.contains))

/-- `urllib.parse.quote` with nothing else safe. -/
def quote (s : Text) : Option Text := encode (alphanumeric_or "_.-~") s

/-- `_encode_view_id`. -/
def encode_view_id (value : Text) : Option Text :=
  (quote value).map (·.flatMap (Percent.escapeMore (· == '~')))

/-! ## Writing a hash -/

/-- The parts of a hash: those fields that are there, if all can be encoded. -/
def pushed : List (String × Option (Option Text)) → Option (List (Text × Text))
  | [] => some []
  | (_, none) :: rest => pushed rest
  | (key, some encoded) :: rest => do
      let value ← encoded
      let parts ← pushed rest
      return (text key, value) :: parts

def part (p : Text × Text) : Text := p.1 ++ .scalar '=' :: p.2

/-- `#` and the parts, or nothing at all. -/
def joined (parts : List (Text × Text)) : Text :=
  if parts = [] then [] else .scalar '#' :: [.scalar '&'].intercalate (parts.map part)

def encodeList (encodeId : Text → Option Text) (sep : Char) (ids : List Text) : Option Text :=
  (ids.mapM encodeId).map [.scalar sep].intercalate

def listField (encodeId : Text → Option Text) (sep : Char) (ids : List Text) :
    Option (Option Text) :=
  if ids = [] then none else some (encodeList encodeId sep ids)

def short : TraceDirection → String
  | .upstream => "up"
  | .downstream => "down"
  | .both => "both"

/-- The step, or 0 when there is none that a link can carry. -/
def stepOrZero (step : Option JsonFloat) : JsonFloat :=
  match step with
  | some x => if isSafeInteger x && nonnegative x then x else .finite 0
  | none => .finite 0

def stepText : JsonFloat → Text
  | .finite x => text x.num.toNat.repr
  | _ => []

def fields (state : ViewState) : List (String × Option (Option Text)) :=
  [("focus", listField encodeId ',' state.focus),
   ("reach", state.reach.map fun direction => some (text (short direction))),
   ("route", state.route.map fun route => encodeList encodeId '~' [route.from_, route.to_]),
   ("lens", listField encodeId '~' state.lens),
   ("edge", (truthy state.edge).map encodeId),
   ("proposal", (truthy state.proposal).map encodeId),
   ("review", (truthy state.review).map encodeId),
   ("tour", (truthy state.tour).map encodeId),
   ("step", (truthy state.tour).map fun _ => some (stepText (stepOrZero state.step)))]

/-- Nothing when `encodeURIComponent` throws. -/
def formatViewHash (state : ViewState) : Option Text := (pushed (fields state)).map joined

/-! ## Reading a hash -/

inductive URIError where
  | malformed
  deriving DecidableEq, Repr

def decodeURIComponent (s : Text) : Except URIError Text :=
  match decode s with
  | some decoded => .ok decoded
  | none => .error .malformed

/-- A throw is caught. -/
def safeDecode (s : Text) : Option Text := (decodeURIComponent s).toOption

def decodeOne (raw : Text) : Option Text := truthy (safeDecode raw)

/-- A piece goes to the end of the list, unless its id is empty, broken or there already. -/
def pushId (out : List Text) (piece : Text) : List Text :=
  match decodeOne piece with
  | some decoded => if decoded ∈ out then out else out ++ [decoded]
  | none => out

def decodeList (raw : Text) (sep : Char) : List Text :=
  (raw.splitOn (.scalar sep)).foldl pushId []

/-- `toLowerCase`; no other character has a letter of the keywords for its lower case. -/
def toLowerCase (s : Text) : Text :=
  s.map fun
    | .scalar c => .scalar c.toLower
    | .surrogate code => .surrogate code

def parseReach (raw : Text) : Option TraceDirection :=
  let word := toLowerCase raw
  if word = text "up" ∨ word = text "upstream" then some .upstream
  else if word = text "down" ∨ word = text "downstream" then some .downstream
  else if word = text "both" then some .both
  else none

def parseRoute (raw : Text) : Option ViewRoute :=
  match (raw.splitOn (.scalar '~')).map safeDecode with
  | [some from_, some to_] => if from_ ≠ [] ∧ to_ ≠ [] then some ⟨from_, to_⟩ else none
  | _ => none

def digit? : CodePoint → Option Char
  | .scalar c => if c.isDigit then some c else none
  | .surrogate _ => none

/-- `^\d+$`. -/
def digits (raw : Text) : Option (List Char) := if raw = [] then none else raw.mapM digit?

/-- Rounding to a double neither makes an integer safe nor takes that away. -/
def parseStep (raw : Text) : Option JsonFloat := do
  let n := Decimal.value (← digits raw)
  if n ≤ MAX_SAFE_INTEGER then some (.finite n) else none

/-- One `key=value`, unless the value is empty. -/
def setParam (params : Dict Text Text) (piece : Text) : Dict Text Text :=
  let key := piece.takeWhile (· ≠ .scalar '=')
  let value := piece.drop (key.length + 1)
  if .scalar '=' ∈ piece ∧ value ≠ [] then params.set key value else params

def params (hash : Text) : Dict Text Text :=
  let body := if hash.head? = some (.scalar '#') then hash.tail else hash
  if body = [] then .empty else (body.splitOn (.scalar '&')).foldl setParam .empty

def parseViewHash (hash : Text) : ViewState :=
  let param key := (params hash).get? (text key)
  let tour := (param "tour").bind decodeOne
  { focus := ((param "focus").map (decodeList · ',')).getD []
    reach := (param "reach").bind parseReach
    route := (param "route").bind parseRoute
    lens := ((param "lens").map (decodeList · '~')).getD []
    edge := (param "edge").bind decodeOne
    proposal := (param "proposal").bind decodeOne
    review := (param "review").bind decodeOne
    tour
    step := tour.bind fun _ => (param "step").bind parseStep }

/-! ## The URL of an agent -/

/-- `str | list[str]`. -/
inductive Ids where
  | one (id : Text)
  | many (ids : List Text)
  deriving DecidableEq, Repr

structure ViewArgs where
  focus : Option Ids := none
  reach : Option Text := none
  route : Option (List Text) := none
  lens : Option Ids := none
  edge : Option Text := none
  proposal : Option Text := none
  review : Option Text := none
  tour : Option Text := none
  step : Json := .null
  deriving Repr

inductive ViewUrlError where
  | reach_must_be_one_of_up_down_both (reach : Text)
  | reach_requires_focus
  | route_must_be_a_pair
  | step_requires_tour
  | step_must_be_a_non_negative_integer
  | unicode_encode_error
  deriving DecidableEq, Repr

/-- The ids of an argument. -/
def Ids.all (ids : Option Ids) : List Text :=
  match ids with
  | none => []
  | some (.one id) => [id]
  | some (.many ids) => ids

def Ids.nonempty (ids : Option Ids) : List Text := (Ids.all ids).filter (· ≠ [])

def REACH_ALIASES : List (Text × String) :=
  [(text "up", "up"), (text "upstream", "up"), (text "down", "down"),
   (text "downstream", "down"), (text "both", "both")]

/-- `str.strip`. -/
def strip (s : Text) : Text :=
  let space : CodePoint → Bool
    | .scalar c => is_space c
    | .surrogate _ => false
  (s.dropWhile space).rdropWhile space

def reach_norm (args : ViewArgs) : Except ViewUrlError (Option String) :=
  match truthy args.reach with
  | none => .ok none
  | some reach =>
      match REACH_ALIASES.lookup (toLowerCase (strip reach)) with
      | none => .error (.reach_must_be_one_of_up_down_both reach)
      | some word =>
          if Ids.nonempty args.focus = [] then .error .reach_requires_focus else .ok (some word)

def route_ids (args : ViewArgs) : Except ViewUrlError (List Text) :=
  match args.route with
  | none => .ok []
  | some ids =>
      if ids.length ≠ 2 ∨ [] ∈ ids then .error .route_must_be_a_pair else .ok ids

/-- The step of a link that has a tour. -/
def checked_step (args : ViewArgs) : Except ViewUrlError Nat :=
  match args.step with
  | .null => .ok 0
  | step =>
      if truthy args.tour = none then .error .step_requires_tour
      else
        match step with
        | .int i => if i < 0 then .error .step_must_be_a_non_negative_integer else .ok i.toNat
        | _ => .error .step_must_be_a_non_negative_integer

def view_fields (args : ViewArgs) (reach_norm : Option String) (route_ids : List Text)
    (step : Nat) : List (String × Option (Option Text)) :=
  [("focus", listField encode_view_id ',' (Ids.nonempty args.focus)),
   ("reach", reach_norm.map fun word => some (text word)),
   ("route", listField encode_view_id '~' route_ids),
   ("lens", listField encode_view_id '~' (Ids.nonempty args.lens)),
   ("edge", (truthy args.edge).map encode_view_id),
   ("proposal", (truthy args.proposal).map encode_view_id),
   ("review", (truthy args.review).map encode_view_id),
   ("tour", (truthy args.tour).map encode_view_id),
   ("step", (truthy args.tour).map fun _ => some (text step.repr))]

def session_url (open_in_ui_base session_id : Text) : Text :=
  open_in_ui_base ++ text "/?session=" ++ session_id

def build_view_url (open_in_ui_base session_id : Text) (args : ViewArgs) :
    Except ViewUrlError Text := do
  let reach_norm ← reach_norm args
  let route_ids ← route_ids args
  let step ← checked_step args
  match pushed (view_fields args reach_norm route_ids step) with
  | some parts => return session_url open_in_ui_base session_id ++ joined parts
  | none => throw .unicode_encode_error

/-! ## The encoders agree -/

def unreserved (c : Char) : Bool := alphanumeric_or "-_." c

/-- Taking marks away leaves the letters and digits. -/
theorem alphanumeric_or_without {marks more rest : String}
    (hmore : more.toList.all (fun c => !c.isAlphanum) = true)
    (hrest : ∀ c, c ∈ rest.toList ↔ c ∈ marks.toList ∧ c ∉ more.toList) (c : Char) :
    (alphanumeric_or marks c && !more.toList.contains c) = alphanumeric_or rest c := by
  rw [Bool.eq_iff_iff]
  simp only [alphanumeric_or, Bool.and_eq_true, Bool.or_eq_true, Bool.not_eq_true',
    List.contains_eq_mem, decide_eq_false_iff_not, decide_eq_true_eq, hrest]
  constructor
  · rintro ⟨halnum | hmark, hnot⟩
    · exact .inl halnum
    · exact .inr ⟨hmark, hnot⟩
  · rintro (halnum | ⟨hmark, hnot⟩)
    · refine ⟨.inl halnum, fun hmem => ?_⟩
      have hnone := List.all_eq_true.mp hmore c hmem
      rw [halnum] at hnone
      cases hnone
    · exact ⟨.inr hmark, hnot⟩

theorem encodeId_eq (id : Text) : encodeId id = encode unreserved id := by
  have hsafe : (fun c => alphanumeric_or "-_.!~*'()" c && !"!'()*~".toList.contains c) =
      unreserved := funext fun c => alphanumeric_or_without (by decide) (fun c => by
        simp
        grind) c
  have hascii : ∀ c, "!'()*~".toList.contains c = true →
      String.utf8EncodeChar c = [UInt8.ofNat c.toNat] := fun c hc => by
    have hall : "!'()*~".toList.all
        (fun c => String.utf8EncodeChar c = [UInt8.ofNat c.toNat]) = true := by decide
    exact of_decide_eq_true (List.all_eq_true.mp hall c (List.contains_iff_mem.mp hc))
  rw [encodeId, encodeURIComponent, Percent.encode_escapeMore (by decide) (by decide) hascii, hsafe]

theorem encode_view_id_eq (value : Text) : encode_view_id value = encode unreserved value := by
  have hsafe : (fun c => alphanumeric_or "_.-~" c && !(c == '~')) = unreserved := funext fun c => by
    have h := @alphanumeric_or_without "_.-~" "~" "-_." (by decide) (fun c => by
        simp
        grind) c
    have htilde : "~".toList.contains c = (c == '~') := by
      simp [Bool.beq_eq_decide_eq]
    rw [unreserved, ← h, htilde]
  have hascii : ∀ c, (c == '~') = true → String.utf8EncodeChar c = [UInt8.ofNat c.toNat] :=
    fun c hc => by
      rw [eq_of_beq hc]
      decide
  rw [encode_view_id, quote, Percent.encode_escapeMore (by decide) (by decide) hascii, hsafe]

/-! ## The parameters of a hash -/

/-- Fields that can be told apart in a hash. -/
structure Readable (fields : List (String × Option (Option Text))) : Prop where
  nodup : (fields.map Prod.fst).Nodup
  names : ∀ field ∈ fields, .scalar '=' ∉ text field.1 ∧ .scalar '&' ∉ text field.1
  values : ∀ field ∈ fields, ∀ value, field.2 = some (some value) → .scalar '&' ∉ value

theorem text_inj {s t : String} : text s = text t ↔ s = t := by
  rw [text, text, List.map_inj_right fun _ _ => CodePoint.scalar.inj, String.toList_inj]

theorem lookup_of_fresh {κ α : Type} [BEq κ] [LawfulBEq κ] {key : κ} {l : List (κ × α)}
    (h : key ∉ l.map Prod.fst) : l.lookup key = none := by
  rw [List.lookup_eq_none_iff]
  rintro ⟨name, a⟩ hp
  exact bne_iff_ne.mpr fun hname => h (hname ▸ List.mem_map_of_mem hp)

theorem setParam_part (params : Dict Text Text) {key : Text} (hkey : .scalar '=' ∉ key)
    (value : Text) :
    setParam params (part (key, value)) = if value = [] then params else params.set key value := by
  have htake : (part (key, value)).takeWhile (· ≠ .scalar '=') = key := by
    rw [part, List.takeWhile_append_of_pos]
    · simp
    · intro a ha
      exact decide_eq_true fun h => hkey (h ▸ ha)
  have hmem : .scalar '=' ∈ part (key, value) := by
    simp [part]
  have hdrop : (part (key, value)).drop (key.length + 1) = value := by
    simp [part, List.drop_append]
  simp only [setParam, htake, hdrop, hmem, true_and]
  split <;> simp_all

/-- The last value of a key stands, but no key comes twice. -/
theorem get?_setParams {parts : List (Text × Text)} (hnodup : (parts.map Prod.fst).Nodup)
    (hnames : ∀ p ∈ parts, .scalar '=' ∉ p.1) (params : Dict Text Text) (key : Text) :
    ((parts.map part).foldl setParam params).get? key =
      ((parts.lookup key).filter (· ≠ [])).or (params.get? key) := by
  induction parts generalizing params with
  | nil => rfl
  | cons p rest ih =>
      obtain ⟨name, value⟩ := p
      obtain ⟨hfresh, hrest⟩ := List.nodup_cons.mp hnodup
      rw [List.map_cons, List.foldl_cons, setParam_part _ (hnames _ List.mem_cons_self),
        ih hrest fun p hp => hnames p (List.mem_cons_of_mem _ hp)]
      by_cases hkey : key = name
      · subst hkey
        have hnone : rest.lookup key = none := lookup_of_fresh hfresh
        rw [hnone, List.lookup_cons_self]
        by_cases hvalue : value = []
        · simp [hvalue, Option.filter]
        · simp [hvalue, Option.filter]
      · have hlookup : ((name, value) :: rest).lookup key = rest.lookup key := by
          rw [List.lookup_cons, beq_eq_false_iff_ne.mpr hkey]
        rw [hlookup]
        split
        · rfl
        · rw [Dict.get?_set_ne _ _ (Ne.symm hkey)]

theorem pushed_cons {key : String} {field : Option (Option Text)}
    {rest : List (String × Option (Option Text))} {parts : List (Text × Text)}
    (h : pushed ((key, field) :: rest) = some parts) :
    (field = none ∧ pushed rest = some parts) ∨
      ∃ value more, field = some (some value) ∧ pushed rest = some more ∧
        parts = (text key, value) :: more := by
  cases field with
  | none => exact .inl ⟨rfl, h⟩
  | some encoded =>
      simp only [pushed, Option.bind_eq_bind, Option.bind_eq_some_iff, Option.pure_def,
        Option.some.injEq] at h
      obtain ⟨value, rfl, more, hmore, rfl⟩ := h
      exact .inr ⟨value, more, rfl, hmore, rfl⟩

/-- A part comes from a field. -/
theorem mem_pushed {fields : List (String × Option (Option Text))} {parts : List (Text × Text)}
    (h : pushed fields = some parts) {p : Text × Text} (hp : p ∈ parts) :
    ∃ key, (key, some (some p.2)) ∈ fields ∧ text key = p.1 := by
  induction fields generalizing parts with
  | nil =>
      cases h
      cases hp
  | cons field rest ih =>
      obtain ⟨-, hrest⟩ | ⟨value, more, hvalue, hrest, rfl⟩ := pushed_cons h
      · obtain ⟨key, hkey, htext⟩ := ih hrest hp
        exact ⟨key, List.mem_cons_of_mem _ hkey, htext⟩
      · rcases List.mem_cons.mp hp with rfl | hp
        · exact ⟨field.1, hvalue ▸ List.mem_cons_self, rfl⟩
        · obtain ⟨key, hkey, htext⟩ := ih hrest hp
          exact ⟨key, List.mem_cons_of_mem _ hkey, htext⟩

/-- All fields could be encoded. -/
theorem ne_of_pushed {fields : List (String × Option (Option Text))} {parts : List (Text × Text)}
    (h : pushed fields = some parts) {field : String × Option (Option Text)}
    (hfield : field ∈ fields) : field.2 ≠ some none := by
  induction fields generalizing parts with
  | nil => cases hfield
  | cons first rest ih =>
      obtain ⟨hnone, hrest⟩ | ⟨value, more, hvalue, hrest, -⟩ := pushed_cons h
      · rcases List.mem_cons.mp hfield with rfl | hfield
        · exact fun h => nomatch hnone.symm.trans h
        · exact ih hrest hfield
      · rcases List.mem_cons.mp hfield with rfl | hfield
        · exact fun h => nomatch hvalue.symm.trans h
        · exact ih hrest hfield

theorem nodup_pushed {fields : List (String × Option (Option Text))} {parts : List (Text × Text)}
    (h : pushed fields = some parts) (hnodup : (fields.map Prod.fst).Nodup) :
    (parts.map Prod.fst).Nodup := by
  induction fields generalizing parts with
  | nil =>
      cases h
      exact List.nodup_nil
  | cons field rest ih =>
      obtain ⟨hfresh, hnodup⟩ := List.nodup_cons.mp hnodup
      obtain ⟨-, hrest⟩ | ⟨value, more, -, hrest, rfl⟩ := pushed_cons h
      · exact ih hrest hnodup
      · refine List.nodup_cons.mpr ⟨fun hmem => ?_, ih hrest hnodup⟩
        obtain ⟨p, hp, hname⟩ := List.mem_map.mp hmem
        obtain ⟨key, hkey, htext⟩ := mem_pushed hrest hp
        obtain rfl := text_inj.mp (htext.trans hname)
        exact hfresh (List.mem_map.mpr ⟨_, hkey, rfl⟩)

theorem lookup_pushed {fields : List (String × Option (Option Text))} {parts : List (Text × Text)}
    (h : pushed fields = some parts) (hnodup : (fields.map Prod.fst).Nodup) (key : String) :
    parts.lookup (text key) = (fields.lookup key).join.join := by
  induction fields generalizing parts with
  | nil =>
      cases h
      rfl
  | cons field rest ih =>
      obtain ⟨name, field⟩ := field
      obtain ⟨hfresh, hnodup_rest⟩ := List.nodup_cons.mp hnodup
      by_cases hkey : key = name
      · subst hkey
        rw [List.lookup_cons_self]
        obtain ⟨rfl, hrest⟩ | ⟨value, more, rfl, hrest, rfl⟩ := pushed_cons h
        · rw [ih hrest hnodup_rest, lookup_of_fresh hfresh]
          rfl
        · rw [List.lookup_cons_self]
          rfl
      · rw [List.lookup_cons, beq_eq_false_iff_ne.mpr hkey]
        obtain ⟨rfl, hrest⟩ | ⟨value, more, rfl, hrest, rfl⟩ := pushed_cons h
        · exact ih hrest hnodup_rest
        · rw [List.lookup_cons, beq_eq_false_iff_ne.mpr fun h => hkey (text_inj.mp h)]
          exact ih hrest hnodup_rest

/-- A hash is read back field by field; an empty value reads as an absent one. -/
theorem get?_params {fields : List (String × Option (Option Text))} (hfields : Readable fields)
    {parts : List (Text × Text)} (h : pushed fields = some parts) (key : String) :
    (params (joined parts)).get? (text key) = (fields.lookup key).join.join.filter (· ≠ []) := by
  have hpart : ∀ p ∈ parts, .scalar '&' ∉ part p := fun p hp => by
    obtain ⟨key, hkey, htext⟩ := mem_pushed h hp
    have hname := (hfields.names _ hkey).2
    have hvalue := hfields.values _ hkey _ rfl
    rw [htext] at hname
    simp [part, hname, hvalue]
  have hnames : ∀ p ∈ parts, .scalar '=' ∉ p.1 := fun p hp => by
    obtain ⟨key, hkey, htext⟩ := mem_pushed h hp
    exact htext ▸ (hfields.names _ hkey).1
  rw [← lookup_pushed h hfields.nodup]
  by_cases hparts : parts = []
  · rw [hparts]
    rfl
  · have hne : [CodePoint.scalar '&'].intercalate (parts.map part) ≠ [] := by
      obtain ⟨p, rest, rfl⟩ := List.exists_cons_of_ne_nil hparts
      cases rest <;> simp [part, List.intercalate]
    have hpieces : ∀ piece ∈ parts.map part, CodePoint.scalar '&' ∉ piece := fun piece hpiece => by
      obtain ⟨p, hp, rfl⟩ := List.mem_map.mp hpiece
      exact hpart p hp
    have hsplit := List.splitOn_intercalate (CodePoint.scalar '&') hpieces
      (fun h => hparts (List.map_eq_nil_iff.mp h))
    have hbody : params (joined parts) = (parts.map part).foldl setParam .empty := by
      simp only [params, joined, if_neg hparts, List.head?_cons, if_true, List.tail_cons, if_neg hne,
        hsplit]
    rw [hbody, get?_setParams (nodup_pushed h hfields.nodup) hnames, Dict.get?_empty, Option.or_none]

/-! ## The normal form -/

/-- The ids that are there, each once, in the order they come first. -/
def distinct (ids : List Text) : List Text := (ids.filter (· ≠ [])).eraseDups

/-- What a link says of a view: no empty ids, none twice, and a step with every tour. -/
def normal (state : ViewState) : ViewState where
  focus := distinct state.focus
  reach := state.reach
  route := state.route.filter fun route => route.from_ ≠ [] ∧ route.to_ ≠ []
  lens := distinct state.lens
  edge := truthy state.edge
  proposal := truthy state.proposal
  review := truthy state.review
  tour := truthy state.tour
  step := (truthy state.tour).map fun _ => stepOrZero state.step

/-! ## Reading the fields -/

theorem separators : Percent.Separator unreserved '&' ∧ Percent.Separator unreserved ',' ∧
    Percent.Separator unreserved '~' := by
  decide

theorem Separator.not_mem {c : Char} (hc : Percent.Separator unreserved c) {id encoded : Text}
    (h : encodeId id = some encoded) : .scalar c ∉ encoded := by
  rw [encodeId_eq] at h
  exact hc.not_mem h

theorem safeDecode_eq (s : Text) : safeDecode s = decode s := by
  rw [safeDecode, decodeURIComponent]
  cases decode s <;> rfl

theorem decode_encodeId {id encoded : Text} (h : encodeId id = some encoded) :
    safeDecode encoded = some id := by
  rw [encodeId_eq] at h
  rw [safeDecode_eq]
  exact Percent.decode_encode (by decide) h

theorem truthy_some (id : Text) : truthy (some id) = if id = [] then none else some id := by
  by_cases h : id = [] <;> simp [truthy, Option.filter, h]

theorem decodeOne_encodeId {id encoded : Text} (h : encodeId id = some encoded) :
    decodeOne encoded = truthy (some id) := by
  rw [decodeOne, decode_encodeId h]

theorem mapM_append_singleton {f : Text → Option Text} {ids : List Text} {id : Text}
    {encoded : List Text} (h : (ids ++ [id]).mapM f = some encoded) :
    ∃ front last, ids.mapM f = some front ∧ f id = some last ∧ encoded = front ++ [last] := by
  simp only [List.mapM_append, List.mapM_cons, List.mapM_nil, Option.bind_eq_bind, Option.pure_def,
    Option.bind_eq_some_iff, Option.some.injEq] at h
  obtain ⟨front, hfront, _, ⟨last, hlast, _, rfl, rfl⟩, rfl⟩ := h
  exact ⟨front, last, hfront, hlast, rfl⟩

theorem mem_of_mapM {f : Text → Option Text} {ids encoded : List Text}
    (h : ids.mapM f = some encoded) {piece : Text} (hpiece : piece ∈ encoded) :
    ∃ id ∈ ids, f id = some piece := by
  induction ids using List.reverseRecOn generalizing encoded with
  | nil =>
      cases h
      cases hpiece
  | append_singleton ids id ih =>
      obtain ⟨front, last, hfront, hlast, rfl⟩ := mapM_append_singleton h
      rcases List.mem_append.mp hpiece with hpiece | hpiece
      · obtain ⟨id', hid', hencoded⟩ := ih hfront hpiece
        exact ⟨id', List.mem_append_left _ hid', hencoded⟩
      · exact ⟨id, List.mem_append_right _ (List.mem_singleton_self id),
          List.mem_singleton.mp hpiece ▸ hlast⟩

/-- Collecting what is not there yet keeps the first of each. -/
theorem decodeList_loop {ids encoded : List Text} (h : ids.mapM encodeId = some encoded) :
    encoded.foldl pushId [] = distinct ids := by
  induction ids using List.reverseRecOn generalizing encoded with
  | nil =>
      cases h
      rfl
  | append_singleton ids id ih =>
      obtain ⟨front, last, hfront, hlast, rfl⟩ := mapM_append_singleton h
      rw [List.foldl_append, ih hfront, List.foldl_cons, List.foldl_nil, pushId,
        decodeOne_encodeId hlast, truthy_some, distinct, distinct, List.filter_append]
      by_cases hid : id = []
      · simp [hid]
      · have hfilter : [id].filter (· ≠ []) = [id] := by
          simp [hid]
        simp only [hid, if_false, hfilter, Groups.eraseDups_append_singleton, List.mem_eraseDups]

theorem splitOn_encodeList {sep : Char} (hsep : Percent.Separator unreserved sep)
    {ids : List Text} (hids : ids ≠ []) {value : Text}
    (h : encodeList encodeId sep ids = some value) :
    ids.mapM encodeId = some (value.splitOn (.scalar sep)) := by
  obtain ⟨encoded, hencoded, rfl⟩ := Option.map_eq_some_iff.mp h
  rw [hencoded, List.splitOn_intercalate]
  · intro piece hpiece
    obtain ⟨id, -, hid⟩ := mem_of_mapM hencoded hpiece
    exact Separator.not_mem hsep hid
  · rintro rfl
    cases ids with
    | nil => exact hids rfl
    | cons id ids => simp [Option.bind_eq_some_iff] at hencoded

theorem not_mem_intercalate {a : CodePoint} {sep : Text} {l : List Text} (hsep : a ∉ sep)
    (h : ∀ piece ∈ l, a ∉ piece) : a ∉ sep.intercalate l := by
  induction l with
  | nil => exact List.not_mem_nil
  | cons piece rest ih =>
      by_cases hrest : rest = []
      · rw [hrest, List.intercalate_singleton]
        exact h piece List.mem_cons_self
      · rw [List.intercalate_cons_of_ne_nil hrest, List.mem_append, List.mem_append, not_or, not_or]
        exact ⟨⟨h piece List.mem_cons_self, hsep⟩,
          ih fun piece hpiece => h piece (List.mem_cons_of_mem _ hpiece)⟩

theorem not_mem_encodeList {sep c : Char} (hc : Percent.Separator unreserved c) (hne : c ≠ sep)
    {ids : List Text} {value : Text} (h : encodeList encodeId sep ids = some value) :
    .scalar c ∉ value := by
  obtain ⟨encoded, hencoded, rfl⟩ := Option.map_eq_some_iff.mp h
  refine not_mem_intercalate ?_ fun piece hpiece => ?_
  · simpa using hne
  · obtain ⟨id, -, hid⟩ := mem_of_mapM hencoded hpiece
    exact Separator.not_mem hc hid

theorem decodeList_nil (sep : Char) : decodeList [] sep = [] := by
  have hone : decodeOne [] = none := by
    rw [decodeOne, safeDecode_eq, Percent.decode]
    rfl
  rw [decodeList, List.splitOn_nil, List.foldl_cons, List.foldl_nil, pushId, hone]

/-- Reading a list of ids; an empty value is no different from none. -/
theorem read_list {sep : Char} (hsep : Percent.Separator unreserved sep) {ids : List Text}
    (hne : listField encodeId sep ids ≠ some none) :
    (((listField encodeId sep ids).join.filter (· ≠ [])).map (decodeList · sep)).getD [] =
      distinct ids := by
  rw [listField] at hne ⊢
  by_cases hids : ids = []
  · rw [if_pos hids, hids]
    rfl
  · rw [if_neg hids] at hne ⊢
    obtain ⟨value, hvalue⟩ := Option.ne_none_iff_exists'.mp fun h => hne (congrArg some h)
    have hlist : decodeList value sep = distinct ids :=
      decodeList_loop (splitOn_encodeList hsep hids hvalue)
    rw [hvalue, Option.join_some, ← hlist]
    by_cases hempty : value = []
    · subst hempty
      rw [decodeList_nil]
      rfl
    · simp [Option.filter, hempty]

theorem read_one {id : Option Text} (hne : (truthy id).map encodeId ≠ some none) :
    ((((truthy id).map encodeId).join).filter (· ≠ [])).bind decodeOne = truthy id := by
  cases hid : truthy id with
  | none => rfl
  | some id' =>
      rw [hid, Option.map_some] at hne
      obtain ⟨value, hvalue⟩ := Option.ne_none_iff_exists'.mp fun h => hne (congrArg some h)
      have hid' : id' ≠ [] := by
        have := (Option.filter_eq_some_iff.mp hid).2
        simpa using this
      have hempty : value ≠ [] := by
        rintro rfl
        rw [encodeId_eq, Percent.encode_eq_nil] at hvalue
        exact hid' hvalue
      rw [Option.map_some, hvalue, Option.join_some]
      simp [Option.filter, hempty, decodeOne_encodeId hvalue, truthy, hid']

theorem read_reach (reach : Option TraceDirection) :
    ((reach.map fun direction => some (text (short direction))).join.filter (· ≠ [])).bind
      parseReach = reach := by
  cases reach with
  | none => rfl
  | some direction => cases direction <;> decide

theorem read_route {route : Option ViewRoute}
    (hne : (route.map fun route => encodeList encodeId '~' [route.from_, route.to_]) ≠ some none) :
    ((route.map fun route => encodeList encodeId '~' [route.from_, route.to_]).join.filter
      (· ≠ [])).bind parseRoute =
      route.filter fun route => route.from_ ≠ [] ∧ route.to_ ≠ [] := by
  cases route with
  | none => rfl
  | some route =>
      obtain ⟨from_, to_⟩ := route
      obtain ⟨value, hvalue⟩ := Option.ne_none_iff_exists'.mp fun h => hne (congrArg some h)
      have hsplit := splitOn_encodeList separators.2.2 (List.cons_ne_nil _ _) hvalue
      obtain ⟨front, second, hfront, hsecond, hpieces⟩ :=
        @mapM_append_singleton encodeId [from_] to_ _ hsplit
      obtain ⟨nothing, first, hnothing, hfirst, rfl⟩ := @mapM_append_singleton encodeId [] _ _ hfront
      obtain rfl : nothing = [] := (Option.some.inj hnothing).symm
      have hempty : value ≠ [] := by
        rintro rfl
        cases hpieces
      have hdecoded : (value.splitOn (.scalar '~')).map safeDecode = [some from_, some to_] := by
        rw [hpieces]
        simp only [List.nil_append, List.cons_append, List.map_cons, List.map_nil,
          decode_encodeId hfirst, decode_encodeId hsecond]
      simp only [Option.map_some, hvalue, Option.join_some]
      rw [Option.filter_some_pos (by simpa using hempty), Option.bind_some, parseRoute, hdecoded]
      simp only [Option.filter_some, decide_eq_true_eq]

/-! ## Steps -/

/-- The step a link carries is a natural number that is safe. -/
theorem stepOrZero_eq (step : Option JsonFloat) :
    ∃ n ≤ MAX_SAFE_INTEGER, stepOrZero step = .finite n := by
  have hzero : ∃ n ≤ MAX_SAFE_INTEGER, JsonFloat.finite 0 = .finite (n : Nat) :=
    ⟨0, Nat.zero_le _, rfl⟩
  cases step with
  | none => exact hzero
  | some x =>
      rw [stepOrZero]
      split
      · next h =>
          obtain ⟨hsafe, hnonneg⟩ := Bool.and_eq_true_iff.mp h
          cases x with
          | infinity negative => cases hsafe
          | nan => cases hsafe
          | finite x =>
              simp only [isSafeInteger, nonnegative, Bool.and_eq_true, decide_eq_true_eq, Rat.isInt,
                beq_iff_eq] at hsafe hnonneg
              have hnum : ((x.num.natAbs : Int) : Rat) = x := by
                rw [Int.natAbs_of_nonneg (Rat.num_nonneg.mpr hnonneg),
                  Rat.coe_int_num_of_den_eq_one hsafe.1]
              exact ⟨x.num.natAbs, hsafe.2, congrArg JsonFloat.finite hnum.symm⟩
      · exact hzero

theorem stepOrZero_finite (n : Nat) :
    stepOrZero (some (.finite n)) = if n ≤ MAX_SAFE_INTEGER then .finite n else .finite 0 := by
  have hnonneg : (0 : Rat) ≤ n := Rat.num_nonneg.mp (by simp)
  have hsafe : (isSafeInteger (.finite n) && nonnegative (.finite n)) = true ↔
      n ≤ MAX_SAFE_INTEGER := by
    simp only [isSafeInteger, nonnegative, Rat.isInt, Rat.den_natCast, Rat.num_natCast,
      Int.natAbs_natCast, beq_self_eq_true, Bool.true_and, hnonneg, decide_true, Bool.and_true]
    exact decide_eq_true_iff
  rw [stepOrZero]
  exact if_congr hsafe rfl rfl

theorem stepText_finite (n : Nat) : stepText (.finite n) = text n.repr := by
  simp [stepText]

theorem digits_text (n : Nat) : digits (text n.repr) = some n.repr.toList := by
  have hloop : ∀ l : List Char, (∀ c ∈ l, c.isDigit = true) →
      (l.map CodePoint.scalar).mapM digit? = some l := fun l hl => by
    induction l with
    | nil => rfl
    | cons c l ih =>
        rw [List.map_cons, List.mapM_cons, ih fun c hc => hl c (List.mem_cons_of_mem _ hc), digit?,
          if_pos (hl c List.mem_cons_self)]
        rfl
  have hne : text n.repr ≠ [] := fun h =>
    Decimal.repr_toList_ne_nil n (List.map_eq_nil_iff.mp h)
  rw [digits, if_neg hne]
  exact hloop _ fun c hc => Decimal.isDigit_of_mem_repr hc

theorem parseStep_text (n : Nat) :
    parseStep (text n.repr) = if n ≤ MAX_SAFE_INTEGER then some (.finite n) else none := by
  simp only [parseStep, digits_text, Option.bind_eq_bind, Option.bind_some, Decimal.value_repr]

/-! ## Links -/

/-- The fields that either side writes, the step apart. -/
def linkFields (state : ViewState) (step : Nat) : List (String × Option (Option Text)) :=
  [("focus", listField encodeId ',' state.focus),
   ("reach", state.reach.map fun direction => some (text (short direction))),
   ("route", state.route.map fun route => encodeList encodeId '~' [route.from_, route.to_]),
   ("lens", listField encodeId '~' state.lens),
   ("edge", (truthy state.edge).map encodeId),
   ("proposal", (truthy state.proposal).map encodeId),
   ("review", (truthy state.review).map encodeId),
   ("tour", (truthy state.tour).map encodeId),
   ("step", (truthy state.tour).map fun _ => some (text step.repr))]

theorem readable_linkFields (state : ViewState) (step : Nat) :
    Readable (linkFields state step) where
  nodup := by
    have : (linkFields state step).map Prod.fst = (linkFields {} 0).map Prod.fst := rfl
    rw [this]
    decide
  names := by
    simp only [linkFields, List.forall_mem_cons]
    decide
  values := by
    have hdigits : ∀ n : Nat, .scalar '&' ∉ text n.repr := fun n hmem => by
      obtain ⟨c, hc, hand⟩ := List.mem_map.mp hmem
      have := Decimal.isDigit_of_mem_repr hc
      rw [CodePoint.scalar.inj hand] at this
      cases this
    have hlist : ∀ (sep : Char) (ids : List Text) (value : Text), sep ≠ '&' →
        listField encodeId sep ids = some (some value) → .scalar '&' ∉ value := by
      intro sep ids value hsep h
      rw [listField] at h
      split at h
      · cases h
      · exact not_mem_encodeList separators.1 (Ne.symm hsep) (Option.some.inj h)
    have hone : ∀ (id : Option Text) (value : Text),
        (truthy id).map encodeId = some (some value) → .scalar '&' ∉ value := by
      intro id value h
      obtain ⟨id', -, hencoded⟩ := Option.map_eq_some_iff.mp h
      exact Separator.not_mem separators.1 hencoded
    simp only [linkFields, List.forall_mem_cons]
    refine ⟨fun value => hlist _ _ _ (by decide), fun value h => ?_, fun value h => ?_,
      fun value => hlist _ _ _ (by decide), hone _, hone _, hone _, hone _, fun value h => ?_,
      fun _ hnil => absurd hnil List.not_mem_nil⟩
    · obtain ⟨direction, -, hshort⟩ := Option.map_eq_some_iff.mp h
      rw [← Option.some.inj hshort]
      cases direction <;> decide
    · obtain ⟨route, -, hroute⟩ := Option.map_eq_some_iff.mp h
      exact not_mem_encodeList separators.1 (by decide) hroute
    · obtain ⟨_, -, hstep⟩ := Option.map_eq_some_iff.mp h
      rw [← Option.some.inj hstep]
      exact hdigits step

/-- What a link is read as. -/
theorem parse_link {state : ViewState} {step : Nat} {parts : List (Text × Text)}
    (h : pushed (linkFields state step) = some parts) :
    parseViewHash (joined parts) = (normal state).withStep ((truthy state.tour).bind fun _ =>
      if step ≤ MAX_SAFE_INTEGER then some (.finite step) else none) := by
  have hparam := get?_params (readable_linkFields state step) h
  have hne : ∀ field ∈ linkFields state step, field.2 ≠ some none := fun _ => ne_of_pushed h
  simp only [linkFields, List.forall_mem_cons] at hne
  obtain ⟨hfocus, -, hroute, hlens, hedge, hproposal, hreview, htour, -, -⟩ := hne
  have hstep : ((((truthy state.tour).map fun _ => some (text step.repr)).join).filter
      (· ≠ [])).bind parseStep = (truthy state.tour).bind fun _ =>
        if step ≤ MAX_SAFE_INTEGER then some (.finite step) else none := by
    cases truthy state.tour with
    | none => rfl
    | some tour =>
        have hempty : text step.repr ≠ [] := fun h =>
          Decimal.repr_toList_ne_nil step (List.map_eq_nil_iff.mp h)
        rw [Option.map_some, Option.join_some, Option.filter_some_pos (by simpa using hempty),
          Option.bind_some, Option.bind_some, parseStep_text]
  simp only [parseViewHash, hparam]
  simp only [linkFields, List.lookup_cons, String.reduceBEq, Option.join_some]
  rw [read_list separators.2.1 hfocus, read_reach, read_route hroute,
    read_list separators.2.2 hlens, read_one hedge, read_one hproposal, read_one hreview,
    read_one htour, hstep]
  cases htour' : truthy state.tour <;> simp [normal, ViewState.withStep, htour']

/-! ## The round trip -/

/-- Every id that a view names. -/
def ViewState.ids (state : ViewState) : List Text :=
  state.focus ++ state.lens ++ (state.route.toList.flatMap fun route => [route.from_, route.to_]) ++
    [state.edge, state.proposal, state.review, state.tour].flatMap Option.toList

/-- Ids that are Unicode text. -/
def ViewState.WellFormed (state : ViewState) : Prop := ∀ id ∈ state.ids, Percent.Encodable id

theorem fields_eq (state : ViewState) :
    ∃ n ≤ MAX_SAFE_INTEGER, stepOrZero state.step = .finite n ∧
      fields state = linkFields state n := by
  obtain ⟨n, hn, hstep⟩ := stepOrZero_eq state.step
  refine ⟨n, hn, hstep, ?_⟩
  rw [fields, hstep, stepText_finite, linkFields]

theorem exists_pushed {fields : List (String × Option (Option Text))}
    (h : ∀ field ∈ fields, field.2 ≠ some none) : ∃ parts, pushed fields = some parts := by
  induction fields with
  | nil => exact ⟨[], rfl⟩
  | cons field rest ih =>
      obtain ⟨parts, hparts⟩ := ih fun field hfield => h field (List.mem_cons_of_mem _ hfield)
      obtain ⟨key, _ | encoded⟩ := field
      · exact ⟨parts, hparts⟩
      · obtain ⟨value, rfl⟩ := Option.ne_none_iff_exists'.mp fun hnone =>
          h _ List.mem_cons_self (congrArg some hnone)
        exact ⟨(text key, value) :: parts, by simp [pushed, hparts]⟩

theorem parse_format {state : ViewState} {hash : Text} (h : formatViewHash state = some hash) :
    parseViewHash hash = normal state := by
  obtain ⟨parts, hparts, rfl⟩ := Option.map_eq_some_iff.mp h
  obtain ⟨n, hn, hstep, hfields⟩ := fields_eq state
  rw [hfields] at hparts
  rw [parse_link hparts, if_pos hn, normal, hstep]
  cases truthy state.tour <;> rfl

theorem exists_mapM {f : Text → Option Text} {ids : List Text} :
    (∃ encoded, ids.mapM f = some encoded) ↔ ∀ id ∈ ids, ∃ encoded, f id = some encoded := by
  induction ids with
  | nil => exact ⟨fun _ => nofun, fun _ => ⟨[], rfl⟩⟩
  | cons id ids ih =>
      rw [List.forall_mem_cons, ← ih, List.mapM_cons]
      constructor
      · rintro ⟨_, h⟩
        simp only [Option.bind_eq_bind, Option.bind_eq_some_iff] at h
        obtain ⟨first, hfirst, rest, hrest, -⟩ := h
        exact ⟨⟨first, hfirst⟩, ⟨rest, hrest⟩⟩
      · rintro ⟨⟨first, hfirst⟩, ⟨rest, hrest⟩⟩
        exact ⟨first :: rest, by rw [hfirst, hrest]; rfl⟩

theorem exists_encodeList {sep : Char} {ids : List Text} :
    (∃ value, encodeList encodeId sep ids = some value) ↔ ∀ id ∈ ids, Percent.Encodable id := by
  have hencode : ∀ id, (∃ encoded, encodeId id = some encoded) ↔ Percent.Encodable id :=
    fun id => by rw [encodeId_eq, Percent.exists_encode_iff]
  have hlist := @exists_mapM encodeId ids
  simp only [hencode] at hlist
  rw [← hlist]
  simp only [encodeList, Option.map_eq_some_iff]
  exact ⟨fun ⟨_, encoded, h, _⟩ => ⟨encoded, h⟩, fun ⟨encoded, h⟩ => ⟨_, encoded, h, rfl⟩⟩

/-- A list of ids is written unless one of them has no encoding. -/
theorem listField_ne {sep : Char} {ids : List Text} :
    listField encodeId sep ids ≠ some none ↔ ∀ id ∈ ids, Percent.Encodable id := by
  rw [← @exists_encodeList sep, listField]
  by_cases hids : ids = []
  · rw [if_pos hids, hids]
    exact ⟨fun _ => ⟨[], rfl⟩, fun _ => nofun⟩
  · rw [if_neg hids, ← Option.ne_none_iff_exists', ne_eq, Option.some_inj]

theorem exists_format {state : ViewState} (h : state.WellFormed) :
    ∃ hash, formatViewHash state = some hash := by
  have hone : ∀ id : Option Text, (∀ id' ∈ id.toList, Percent.Encodable id') →
      (truthy id).map encodeId ≠ some none := by
    intro id hid hnone
    obtain ⟨id', hid', hencoded⟩ := Option.map_eq_some_iff.mp hnone
    have hmem := (Option.filter_eq_some_iff.mp hid').1
    obtain ⟨value, hvalue⟩ := Percent.exists_encode_iff.mpr (hid id' (by simp [hmem]))
    rw [encodeId_eq, hvalue] at hencoded
    cases hencoded
  have hsome : ∀ {α : Type} (o : Option α) (f : α → Text),
      (o.map fun a => some (f a)) ≠ some none := by
    intro α o f hnone
    obtain ⟨a, -, ha⟩ := Option.map_eq_some_iff.mp hnone
    cases ha
  have hroute : (state.route.map fun route =>
      encodeList encodeId '~' [route.from_, route.to_]) ≠ some none := by
    intro hnone
    obtain ⟨route, hroute, hencoded⟩ := Option.map_eq_some_iff.mp hnone
    have hids : ∀ id ∈ [route.from_, route.to_], Percent.Encodable id := fun id hid =>
      h id (by
        simp only [ViewState.ids, List.mem_append, hroute, Option.toList_some, List.flatMap_cons]
        tauto)
    obtain ⟨value, hvalue⟩ := (@exists_encodeList '~' _).mpr hids
    rw [hvalue] at hencoded
    cases hencoded
  obtain ⟨n, -, -, hfields⟩ := fields_eq state
  have hne : ∀ field ∈ fields state, field.2 ≠ some none := by
    rw [hfields]
    simp only [linkFields, List.forall_mem_cons]
    refine ⟨listField_ne.mpr fun id hid => h id ?_, hsome _ _, hroute,
      listField_ne.mpr fun id hid => h id ?_,
      hone _ fun id hid => h id ?_, hone _ fun id hid => h id ?_, hone _ fun id hid => h id ?_,
      hone _ fun id hid => h id ?_, hsome _ _, fun _ hnil => absurd hnil List.not_mem_nil⟩
    all_goals
      simp only [ViewState.ids, List.mem_append, List.flatMap_cons]
      tauto
  obtain ⟨parts, hparts⟩ := exists_pushed hne
  exact ⟨joined parts, congrArg _ hparts⟩

/-- The ids that are empty go first. -/
def compact (state : ViewState) : ViewState :=
  { state with focus := state.focus.filter (· ≠ []), lens := state.lens.filter (· ≠ []) }

/-- Empty ids are no reason to throw. -/
theorem exists_format_compact {state : ViewState} {n : Nat} {parts : List (Text × Text)}
    (h : pushed (linkFields (compact state) n) = some parts) :
    ∃ hash, formatViewHash state = some hash := by
  have hlist : ∀ (sep : Char) (ids : List Text),
      listField encodeId sep (ids.filter (· ≠ [])) ≠ some none →
        listField encodeId sep ids ≠ some none := fun sep ids h => by
    rw [listField_ne] at h ⊢
    intro id hid
    by_cases hempty : id = []
    · rw [hempty]
      exact fun _ => List.not_mem_nil
    · exact h id (List.mem_filter.mpr ⟨hid, decide_eq_true hempty⟩)
  obtain ⟨m, -, -, hfields⟩ := fields_eq state
  have hne : ∀ field ∈ linkFields (compact state) n, field.2 ≠ some none :=
    fun _ => ne_of_pushed h
  have hne' : ∀ field ∈ fields state, field.2 ≠ some none := by
    rw [hfields]
    simp only [linkFields, List.forall_mem_cons] at hne ⊢
    obtain ⟨hfocus, hreach, hroute, hlens, hedge, hproposal, hreview, htour, -, -⟩ := hne
    refine ⟨hlist _ _ hfocus, hreach, hroute, hlist _ _ hlens, hedge, hproposal, hreview, htour,
      ?_, fun _ hnil => absurd hnil List.not_mem_nil⟩
    cases truthy state.tour <;> intro h <;> cases h
  obtain ⟨parts, hparts⟩ := exists_pushed hne'
  exact ⟨joined parts, congrArg _ hparts⟩

/-! ## The links of agents -/

def direction : String → Option TraceDirection
  | "up" => some .upstream
  | "down" => some .downstream
  | "both" => some .both
  | _ => none

/-- The view that the arguments name. -/
def view (args : ViewArgs) : ViewState where
  focus := Ids.all args.focus
  reach := (truthy args.reach).bind fun reach =>
    (REACH_ALIASES.lookup (toLowerCase (strip reach))).bind direction
  route :=
    match args.route with
    | some [from_, to_] => some ⟨from_, to_⟩
    | _ => none
  lens := Ids.all args.lens
  edge := args.edge
  proposal := args.proposal
  review := args.review
  tour := args.tour
  step :=
    match args.step with
    | .int i => some (.finite i)
    | _ => none

/-- The step is one that a canvas counts exactly, if there is one. -/
def SafeStep (args : ViewArgs) : Prop := ∀ i, args.step = .int i → i ≤ MAX_SAFE_INTEGER

theorem distinct_filter (ids : List Text) : distinct (ids.filter (· ≠ [])) = distinct ids := by
  rw [distinct, distinct, List.filter_filter]
  simp

theorem normal_compact (state : ViewState) : normal (compact state) = normal state := by
  simp only [normal, compact, distinct_filter]

theorem encode_view_id_eq_encodeId : encode_view_id = encodeId :=
  funext fun id => (encode_view_id_eq id).trans (encodeId_eq id).symm

theorem reach_norm_eq {args : ViewArgs} {word : Option String} (h : reach_norm args = .ok word) :
    (word.map fun word => some (text word)) =
      (view args).reach.map fun direction => some (text (short direction)) := by
  rw [reach_norm] at h
  rw [view]
  cases hreach : truthy args.reach with
  | none =>
      rw [hreach] at h
      cases h
      rfl
  | some reach =>
      simp only [hreach] at h
      rw [Option.bind_some]
      cases hlookup : REACH_ALIASES.lookup (toLowerCase (strip reach)) with
      | none =>
          rw [hlookup] at h
          cases h
      | some name =>
          simp only [hlookup] at h
          split at h
          · cases h
          · cases h
            have hnames : ∀ p ∈ REACH_ALIASES, (direction p.2).map short = some p.2 := by decide
            obtain ⟨l, l', hl, -⟩ := List.lookup_eq_some_iff.mp hlookup
            have hname := hnames (_, name) (hl ▸ List.mem_append_right _ List.mem_cons_self)
            obtain ⟨d, hd, hshort⟩ := Option.map_eq_some_iff.mp hname
            rw [Option.bind_some, hd, Option.map_some, Option.map_some, hshort]

theorem route_ids_eq {args : ViewArgs} {ids : List Text} (h : route_ids args = .ok ids) :
    listField encode_view_id '~' ids = (view args).route.map fun route =>
      encodeList encodeId '~' [route.from_, route.to_] := by
  rw [route_ids] at h
  rw [encode_view_id_eq_encodeId]
  cases hroute : args.route with
  | none =>
      rw [hroute] at h
      cases h
      simp [view, hroute, listField]
  | some route =>
      simp only [hroute] at h
      split at h
      · cases h
      · next hpair =>
          cases h
          rw [not_or, not_not, List.length_eq_two] at hpair
          obtain ⟨⟨from_, to_, rfl⟩, -⟩ := hpair
          simp [view, hroute, listField]

/-- What an agent writes is what the canvas would write, up to the step. -/
theorem view_fields_eq {args : ViewArgs} {word : Option String} {ids : List Text} (n : Nat)
    (hword : reach_norm args = .ok word) (hids : route_ids args = .ok ids) :
    view_fields args word ids n = linkFields (compact (view args)) n := by
  rw [view_fields, linkFields, reach_norm_eq hword, route_ids_eq hids, encode_view_id_eq_encodeId]
  rfl

/-- What the step of a link that was written is. -/
theorem checked_step_spec {args : ViewArgs} {n : Nat} (h : checked_step args = .ok n) :
    (args.step = .null ∧ n = 0) ∨ (args.step = .int n ∧ truthy args.tour ≠ none) := by
  rw [checked_step] at h
  cases hstep : args.step with
  | null =>
      rw [hstep] at h
      cases h
      exact .inl ⟨rfl, rfl⟩
  | int i =>
      simp only [hstep] at h
      split at h
      · cases h
      · next htour =>
          split at h
          · cases h
          · next hneg =>
              cases h
              exact .inr ⟨by rw [Int.toNat_of_nonneg (Int.not_lt.mp hneg)], htour⟩
  | bool b =>
      simp only [hstep] at h
      split at h <;> cases h
  | float x =>
      simp only [hstep] at h
      split at h <;> cases h
  | str s =>
      simp only [hstep] at h
      split at h <;> cases h
  | arr items =>
      simp only [hstep] at h
      split at h <;> cases h
  | obj members =>
      simp only [hstep] at h
      split at h <;> cases h

/-- The link of an agent is read as the view with the step as it is written. -/
theorem build_view_url_spec {open_in_ui_base session_id url : Text} {args : ViewArgs}
    (h : build_view_url open_in_ui_base session_id args = .ok url) :
    ∃ n hash, checked_step args = .ok n ∧ url = session_url open_in_ui_base session_id ++ hash ∧
      (∃ tsHash, formatViewHash (view args) = some tsHash) ∧
      parseViewHash hash = (normal (view args)).withStep ((truthy args.tour).bind fun _ =>
        if n ≤ MAX_SAFE_INTEGER then some (.finite n) else none) := by
  rw [build_view_url] at h
  cases hword : reach_norm args with
  | error e =>
      rw [hword] at h
      cases h
  | ok word =>
  cases hids : route_ids args with
  | error e =>
      rw [hword, hids] at h
      cases h
  | ok ids =>
  cases hstep : checked_step args with
  | error e =>
      rw [hword, hids, hstep] at h
      cases h
  | ok n =>
  simp only [hword, hids, hstep, bind, Except.bind, view_fields_eq n hword hids] at h
  cases hparts : pushed (linkFields (compact (view args)) n) with
  | none =>
      rw [hparts] at h
      cases h
  | some parts =>
      simp only [hparts] at h
      cases h
      refine ⟨n, joined parts, rfl, rfl, exists_format_compact hparts, ?_⟩
      rw [parse_link hparts, normal_compact]
      rfl

/-- The link of an agent says what the canvas would say of the same view. -/
def SameState (open_in_ui_base session_id url : Text) (args : ViewArgs) : Prop :=
  ∃ hash tsHash, url = session_url open_in_ui_base session_id ++ hash ∧
    formatViewHash (view args) = some tsHash ∧ parseViewHash hash = parseViewHash tsHash

/-- The state that a link of an agent is read as is the normal form of the view,
exactly when the canvas counts to its step. -/
theorem parse_build_iff {open_in_ui_base session_id url : Text} {args : ViewArgs}
    (h : build_view_url open_in_ui_base session_id args = .ok url) :
    SameState open_in_ui_base session_id url args ↔ SafeStep args := by
  obtain ⟨n, hash, hstep, rfl, ⟨tsHash, htsHash⟩, hparse⟩ := build_view_url_spec h
  have hsame : SameState open_in_ui_base session_id (session_url open_in_ui_base session_id ++ hash)
      args ↔ parseViewHash hash = normal (view args) := by
    constructor
    · rintro ⟨hash', tsHash', hurl, hts', heq⟩
      rw [List.append_cancel_left hurl, heq, parse_format hts']
    · intro heq
      exact ⟨hash, tsHash, rfl, htsHash, by rw [heq, parse_format htsHash]⟩
  have hstepEq : ∀ x, (normal (view args)).withStep x = normal (view args) ↔
      x = (truthy args.tour).map fun _ => stepOrZero (view args).step :=
    fun x => ⟨fun h => congrArg ViewState.step h, fun h => by rw [h]; rfl⟩
  rw [hsame, hparse, hstepEq]
  obtain ⟨hnull, rfl⟩ | ⟨hint, htour⟩ := checked_step_spec hstep
  · -- without a step both sides say 0
    have hzero : stepOrZero (view args).step = .finite (0 : Nat) := by
      simp [view, hnull, stepOrZero]
    refine iff_of_true ?_ fun i hi => nomatch hnull.symm.trans hi
    rw [hzero, if_pos (Nat.zero_le _)]
    cases truthy args.tour <;> rfl
  · obtain ⟨tour, htour⟩ := Option.ne_none_iff_exists'.mp htour
    have hview : (view args).step = some (.finite n) := by
      simp only [view, hint, Rat.intCast_natCast]
    have hsafe : SafeStep args ↔ n ≤ MAX_SAFE_INTEGER := by
      constructor
      · intro hsafe
        exact Int.ofNat_le.mp (hsafe n hint)
      · intro hn i hi
        obtain rfl := Json.int.inj (hint.symm.trans hi)
        exact Int.ofNat_le.mpr hn
    rw [hsafe, htour, hview, Option.bind_some, Option.map_some, stepOrZero_finite]
    by_cases hn : n ≤ MAX_SAFE_INTEGER
    · simp [hn]
    · simp [hn]

theorem view_link_law (state : ViewState) (open_in_ui_base session_id url : Text)
    (args : ViewArgs) :
    (state.WellFormed →
      ∃ hash, formatViewHash state = some hash ∧ parseViewHash hash = normal state) ∧
    (build_view_url open_in_ui_base session_id args = .ok url →
      (SameState open_in_ui_base session_id url args ↔ SafeStep args)) := by
  constructor
  · intro hstate
    obtain ⟨hash, hhash⟩ := exists_format hstate
    exact ⟨hash, hhash, parse_format hhash⟩
  · intro h
    exact parse_build_iff h

/-- Ids with separators, a percent sign and an accent. -/
theorem view_link_law_accent :
    (∃ hash, formatViewHash { focus := [text "a,b", text "50%é"], tour := some (text "t~1") } =
        some hash ∧
      parseViewHash hash =
        normal { focus := [text "a,b", text "50%é"], tour := some (text "t~1") }) ∧
    (SameState (text "http://h") (text "s") (text "http://h/?session=s#focus=%C3%A9&tour=t&step=2")
        { focus := some (.one (text "é")), tour := some (text "t"), step := .int 2 } ↔
      SafeStep { focus := some (.one (text "é")), tour := some (text "t"), step := .int 2 }) := by
  have hlaw := view_link_law { focus := [text "a,b", text "50%é"], tour := some (text "t~1") }
    (text "http://h") (text "s") (text "http://h/?session=s#focus=%C3%A9&tour=t&step=2")
    { focus := some (.one (text "é")), tour := some (text "t"), step := .int 2 }
  refine ⟨hlaw.1 fun id hid => ?_, hlaw.2 (by decide)⟩
  simp only [ViewState.ids, Option.toList_none, Option.toList_some, List.flatMap_nil,
    List.flatMap_cons, List.append_nil, List.cons_append, List.nil_append, List.mem_cons,
    List.not_mem_nil, or_false] at hid
  obtain rfl | rfl | rfl := hid <;> exact Percent.encodable_text _

/-- The canvas takes a step that is not safe for 0, the tools of an agent write it out,
and it is read as no step. -/
theorem build_view_url_unsafe_step :
    ¬ ∀ (open_in_ui_base session_id url : Text) (args : ViewArgs),
      build_view_url open_in_ui_base session_id args = .ok url →
        SameState open_in_ui_base session_id url args := by
  intro h
  have hurl : build_view_url (text "http://h") (text "s")
      { tour := some (text "t1"), step := .int 9007199254740992 } =
        .ok (text "http://h/?session=s#tour=t1&step=9007199254740992") := by
    decide
  have hsafe := (parse_build_iff hurl).mp (h _ _ _ _ hurl) _ rfl
  revert hsafe
  decide

end EmergentFlow.ViewLink
