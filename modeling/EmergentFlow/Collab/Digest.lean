import EmergentFlow.Lib.CompactJson

/-!
# Collab — Digest

The digest of a run's payloads for an agent (`collab/digest.py`). Scalars and texts stand as
they are, a table keeps its shape and head, a large JSON value is cut down, an image or a page
becomes a summary. One limit holds for the document of all of them: a port that the running
estimate has no room for gets a marker, and in the end nodes are dropped from the last on until
the document fits.

How a float is written, the digest of `hashlib.sha1` and `str` of a parsed value are parameters.
-/

namespace EmergentFlow.Digest

structure Host where
  float_repr : Rat → String
  float_repr_ascii : ∀ x, CompactJson.Ascii (float_repr x).toList
  /-- `sha1(text.encode("utf-8")).hexdigest()`. -/
  sha1 : String → String
  str : Json → String

def MAX_DIGEST_BYTES : Nat := 50 * 1024

def MAX_TABLE_HEAD_ROWS : Nat := 5

def MAX_JSON_CHARS : Nat := 1024

variable (host : Host)

/-- `len(json.dumps(obj, separators=(",", ":")))`. -/
def serialized_len (obj : Json) : Nat := (CompactJson.dumps host.float_repr obj).length

/-- `len(json.dumps(obj, separators=(",", ":")).encode("utf-8"))`. -/
def encoded_len (obj : Json) : Nat := (CompactJson.dumps host.float_repr obj).utf8ByteSize

theorem serialized_len_eq (obj : Json) :
    serialized_len host obj = CompactJson.size host.float_repr obj :=
  CompactJson.length_dumps host.float_repr obj

/-- The text is ASCII. -/
theorem encoded_len_eq (obj : Json) : encoded_len host obj = serialized_len host obj := by
  rw [serialized_len_eq]
  exact CompactJson.utf8ByteSize_dumps host.float_repr_ascii obj

@[simp] theorem serialized_len_null : serialized_len host .null = 4 := by
  rw [serialized_len_eq, CompactJson.size, CompactJson.print]
  rfl

/-! ## A JSON value -/

mutual

/-- `_shrink`. -/
def shrink (budget : Nat) (obj : Json) : Json :=
  if budget ≤ 4 then .null
  else
    match obj with
    | .str s => .str (String.ofList (s.toList.take (min s.length (budget - 2))))
    | .obj members => .obj (shrink_members budget [] members)
    | .arr items => .arr (shrink_items budget items)
    | obj => obj

/-- The loop over the members of an object, with what it has put out so far. -/
def shrink_members (budget : Nat) (out : List (String × Json)) :
    List (String × Json) → List (String × Json)
  | [] => out
  | (key, child) :: members =>
      let key_overhead := serialized_len host (.str key) + 1
      if budget - key_overhead ≤ 4 then out
      else
        let out := Dict.setL key (shrink (budget - key_overhead) child) out
        let budget := budget - key_overhead
        if budget ≤ serialized_len host (.obj out) then out
        else shrink_members budget out members

def shrink_items (budget : Nat) : List Json → List Json
  | [] => []
  | child :: items =>
      let child_budget := budget - 8
      if child_budget ≤ 4 then []
      else shrink child_budget child :: shrink_items (budget - 8) items

end

/-- The measurement loop. `int(budget * 0.5)` is exact below `2 ^ 53`. -/
def truncate_loop (value : Json) (target_bytes budget : Nat) : Json :=
  let candidate := shrink host budget value
  if serialized_len host candidate ≤ target_bytes then candidate
  else if _h : budget / 2 < 8 then .null
  else truncate_loop value target_bytes (budget / 2)
termination_by budget

/-- `_truncate_json`. -/
def truncate_json (value : Json) (target_bytes : Nat) : Json :=
  if serialized_len host value ≤ target_bytes then value
  else truncate_loop host value target_bytes target_bytes

theorem truncate_loop_le (value : Json) (target_bytes budget : Nat) :
    serialized_len host (truncate_loop host value target_bytes budget) ≤ target_bytes ∨
      truncate_loop host value target_bytes budget = .null := by
  fun_induction truncate_loop host value target_bytes budget with
  | case1 budget candidate hfits => exact .inl hfits
  | case2 => exact .inr rfl
  | case3 budget candidate hlarge hbudget ih => exact ih

/-- What is cut down fits, once there is room for `null`. -/
theorem truncate_json_le {target_bytes : Nat} (h : 4 ≤ target_bytes) (value : Json) :
    serialized_len host (truncate_json host value target_bytes) ≤ target_bytes := by
  unfold truncate_json
  split
  · assumption
  · rcases truncate_loop_le host value target_bytes target_bytes with hle | hnull
    · exact hle
    · rw [hnull, serialized_len_null]
      exact h

theorem truncate_json_null (target_bytes : Nat) :
    truncate_json host .null target_bytes = .null := by
  have hloop (budget : Nat) : truncate_loop host .null target_bytes budget = .null := by
    fun_induction truncate_loop host .null target_bytes budget with
    | case1 budget candidate hfits =>
        show shrink host budget .null = .null
        unfold shrink
        split <;> rfl
    | case2 => rfl
    | case3 budget candidate hlarge hbudget ih => exact ih
  unfold truncate_json
  split
  · rfl
  · exact hloop _

/-! ## A payload -/

/-- `payload.get(key, default)`. -/
def get (members : List (String × Json)) (key : String) (default : Json) : Json :=
  (members.lookup key).getD default

/-- `len(value)`. -/
def len : Json → Option Nat
  | .str s => some s.length
  | .arr items => some items.length
  | .obj members => some members.length
  | _ => none

/-- `head[:MAX_TABLE_HEAD_ROWS]`; a dictionary has no slices. -/
def first_rows : Json → Option Json
  | .str s => some (.str (String.ofList (s.toList.take MAX_TABLE_HEAD_ROWS)))
  | .arr rows => some (.arr (rows.take MAX_TABLE_HEAD_ROWS))
  | _ => none

def digest_table (members : List (String × Json)) : Option Json := do
  let head := get members "head" (.arr [])
  let rows ← len head
  let head ← if MAX_TABLE_HEAD_ROWS < rows then first_rows head else some head
  some (.obj
    [("kind", .str "table"),
     ("columns", get members "columns" (.arr [])),
     ("dtypes", get members "dtypes" (.arr [])),
     ("shape", get members "shape" (.arr [.int 0, .int 0])),
     ("head", head),
     ("truncated", .bool true)])

def digest_json (members : List (String × Json)) : Json :=
  let value := get members "value" .null
  let serialized := serialized_len host value
  if serialized ≤ MAX_JSON_CHARS then .obj members
  else
    .obj
      [("kind", .str "json"),
       ("value", truncate_json host value MAX_JSON_CHARS),
       ("truncated", .bool true),
       ("original_bytes", .int serialized)]

def digest_image (members : List (String × Json)) : Option Json := do
  let data ← (get members "data" (.str "")).str?
  let digest := String.ofList ((host.sha1 data).toList.take 12)
  let width := get members "width" (.int 0)
  let height := get members "height" (.int 0)
  some (.obj
    [("kind", .str "image_summary"),
     ("mime", get members "mime" (.str "image/png")),
     ("width", width),
     ("height", height),
     ("bytes", .int (data.length * 3 / 4 : Nat)),
     ("handle", .str ("image:" ++ host.str width ++ "x" ++ host.str height ++ ":" ++ digest))])

def digest_html (members : List (String × Json)) : Option Json := do
  let bytes ← len (get members "value" (.str ""))
  some (.obj
    [("kind", .str "html_summary"),
     ("bytes", .int bytes),
     ("handle", .str ("html:" ++ bytes.repr ++ "bytes"))])

mutual

/-- `digest_payload`; none where it raises. -/
def digest_payload : Json → Option Json
  | .obj members =>
      let kind := members.lookup "kind" >>= Json.str?
      if kind = some "table" then digest_table members
      else if kind = some "record" then
        (record_fields members).map fun fields =>
          .obj
            [("kind", .str "record"),
             ("type", get members "type" (.str "unknown")),
             ("fields", .obj fields)]
      else if kind = some "json" then some (digest_json host members)
      else if kind = some "image" then digest_image host members
      else if kind = some "html" then digest_html members
      -- scalars, texts, what is unsupported and any other kind
      else some (.obj members)
  | _ => none

/-- The digests of `payload.get("fields", {}).items()`. -/
def record_fields : List (String × Json) → Option (List (String × Json))
  | [] => some []
  | (key, fields) :: members => if key = "fields" then items_of fields else record_fields members

def items_of : Json → Option (List (String × Json))
  | .obj fields => digest_fields fields
  | _ => none

def digest_fields : List (String × Json) → Option (List (String × Json))
  | [] => some []
  | (name, field) :: fields => do
      let digested ← digest_payload field
      let rest ← digest_fields fields
      some ((name, digested) :: rest)

end

/-- What a node puts out at a port: a value that `digest_payload` takes, as it takes every value
of the payload contract (`Contract.digestible`). -/
structure Payload where
  json : Json
  digestible : (digest_payload host json).isSome

variable {host}

def Payload.digest (payload : Payload host) : Json :=
  (digest_payload host payload.json).get payload.digestible

/-! ## The payloads of the server -/

mutual

/-- The payload contract (`server/payload.py`), as far as a digest looks at it. -/
inductive Contract : Json → Prop
  | table {members : List (String × Json)} {rows : List Json}
      (hkind : members.lookup "kind" >>= Json.str? = some "table")
      (hhead : get members "head" (.arr []) = .arr rows) : Contract (.obj members)
  | record {members fields : List (String × Json)}
      (hkind : members.lookup "kind" >>= Json.str? = some "record")
      (hfields : get members "fields" (.obj []) = .obj fields) (h : FieldsContract fields) :
      Contract (.obj members)
  | image {members : List (String × Json)} {data : String}
      (hkind : members.lookup "kind" >>= Json.str? = some "image")
      (hdata : get members "data" (.str "") = .str data) : Contract (.obj members)
  | html {members : List (String × Json)} {value : String}
      (hkind : members.lookup "kind" >>= Json.str? = some "html")
      (hvalue : get members "value" (.str "") = .str value) : Contract (.obj members)
  | other {members : List (String × Json)}
      (hkind : ∀ kind ∈ ["table", "record", "image", "html"],
        members.lookup "kind" >>= Json.str? ≠ some kind) : Contract (.obj members)

inductive FieldsContract : List (String × Json) → Prop
  | nil : FieldsContract []
  | cons {name : String} {field : Json} {fields : List (String × Json)}
      (hfield : Contract field) (h : FieldsContract fields) :
      FieldsContract ((name, field) :: fields)

end

variable (host) in
theorem record_fields_eq (members : List (String × Json)) :
    record_fields host members = items_of host (get members "fields" (.obj [])) := by
  induction members with
  | nil => rfl
  | cons member members ih =>
      obtain ⟨key, value⟩ := member
      by_cases hkey : key = "fields"
      · subst hkey
        rw [record_fields, if_pos rfl, get, List.lookup_cons_self, Option.getD_some]
      · rw [record_fields, if_neg hkey, ih, get, get, List.lookup_cons,
          beq_false_of_ne (Ne.symm hkey)]

theorem digest_table_isSome {members : List (String × Json)} {rows : List Json}
    (h : get members "head" (.arr []) = .arr rows) : (digest_table members).isSome := by
  simp only [digest_table, h, len, first_rows, Option.bind_eq_bind, Option.bind_some]
  split <;> rfl

theorem digest_image_isSome {members : List (String × Json)} {data : String}
    (h : get members "data" (.str "") = .str data) : (digest_image host members).isSome := by
  simp only [digest_image, h, Json.str?, Option.bind_eq_bind, Option.bind_some]
  rfl

theorem digest_html_isSome {members : List (String × Json)} {value : String}
    (h : get members "value" (.str "") = .str value) : (digest_html members).isSome := by
  simp only [digest_html, h, len, Option.bind_eq_bind, Option.bind_some]
  rfl

mutual

theorem Contract.digestible : ∀ {payload : Json}, Contract payload →
    (digest_payload host payload).isSome
  | .obj members, .table hkind hhead => by
      unfold digest_payload
      rw [hkind]
      exact digest_table_isSome hhead
  | .obj members, .record hkind hfields h => by
      unfold digest_payload
      rw [hkind, record_fields_eq, hfields]
      obtain ⟨digested, hdigested⟩ := Option.isSome_iff_exists.mp h.digestible
      simp [items_of, hdigested]
  | .obj members, .image hkind hdata => by
      unfold digest_payload
      rw [hkind]
      exact digest_image_isSome hdata
  | .obj members, .html hkind hvalue => by
      unfold digest_payload
      rw [hkind]
      exact digest_html_isSome hvalue
  | .obj members, .other hkind => by
      simp only [List.forall_mem_cons] at hkind
      obtain ⟨htable, hrecord, himage, hhtml, -⟩ := hkind
      unfold digest_payload
      simp only [if_neg htable, if_neg hrecord, if_neg himage, if_neg hhtml]
      split <;> rfl

theorem FieldsContract.digestible : ∀ {fields : List (String × Json)}, FieldsContract fields →
    (digest_fields host fields).isSome
  | [], .nil => rfl
  | (name, field) :: fields, .cons hfield h => by
      obtain ⟨first, hfirst⟩ := Option.isSome_iff_exists.mp hfield.digestible
      obtain ⟨rest, hrest⟩ := Option.isSome_iff_exists.mp h.digestible
      simp [digest_fields, hfirst, hrest]

end

/-! ## What a digest leaves out -/

mutual

/-- A digest says what it leaves out: it is the payload itself, or it is marked as truncated, or
its kind is that of a summary, or it is a record of such digests. -/
inductive Reports : Json → Json → Prop
  | whole (payload : Json) : Reports payload payload
  | cut {payload digested : Json} (h : digested.get? "truncated" = some (.bool true)) :
      Reports payload digested
  | summary {payload digested : Json} {kind : String}
      (hkind : kind = "image_summary" ∨ kind = "html_summary")
      (h : digested.get? "kind" = some (.str kind)) : Reports payload digested
  | record {members fields digested : List (String × Json)} {type : Json}
      (hfields : members.lookup "fields" = none ∧ fields = [] ∨
        members.lookup "fields" = some (.obj fields))
      (h : FieldsReport fields digested) :
      Reports (.obj members)
        (.obj [("kind", .str "record"), ("type", type), ("fields", .obj digested)])

inductive FieldsReport : List (String × Json) → List (String × Json) → Prop
  | nil : FieldsReport [] []
  | cons {name : String} {field digested : Json} {fields rest : List (String × Json)}
      (hfield : Reports field digested) (h : FieldsReport fields rest) :
      FieldsReport ((name, field) :: fields) ((name, digested) :: rest)

end

theorem digest_table_truncated {members : List (String × Json)} {digested : Json}
    (h : digest_table members = some digested) :
    digested.get? "truncated" = some (.bool true) := by
  unfold digest_table at h
  rw [Option.bind_eq_bind, Option.bind_eq_some_iff] at h
  obtain ⟨rows, -, h⟩ := h
  split at h
  all_goals
    simp only [Option.bind_eq_bind, Option.bind_eq_some_iff, Option.some.injEq] at h
    obtain ⟨head, -, rfl⟩ := h
    rfl

theorem digest_json_reports (members : List (String × Json)) :
    Reports (.obj members) (digest_json host members) := by
  unfold digest_json
  dsimp only
  split
  · exact .whole _
  · exact .cut rfl

theorem digest_image_kind {members : List (String × Json)} {digested : Json}
    (h : digest_image host members = some digested) :
    digested.get? "kind" = some (.str "image_summary") := by
  unfold digest_image at h
  simp only [Option.bind_eq_bind, Option.bind_eq_some_iff, Option.some.injEq] at h
  obtain ⟨data, -, rfl⟩ := h
  rfl

theorem digest_html_kind {members : List (String × Json)} {digested : Json}
    (h : digest_html members = some digested) :
    digested.get? "kind" = some (.str "html_summary") := by
  unfold digest_html at h
  simp only [Option.bind_eq_bind, Option.bind_eq_some_iff, Option.some.injEq] at h
  obtain ⟨bytes, -, rfl⟩ := h
  rfl

mutual

theorem digest_payload_reports : ∀ {payload digested : Json},
    digest_payload host payload = some digested → Reports payload digested
  | .obj members, digested, h => by
      unfold digest_payload at h
      dsimp only at h
      split at h
      · exact .cut (digest_table_truncated h)
      · split at h
        · obtain ⟨fields, hfields, rfl⟩ := Option.map_eq_some_iff.mp h
          obtain ⟨given, hgiven, hreports⟩ := record_fields_report hfields
          exact .record hgiven hreports
        · split at h
          · cases h
            exact digest_json_reports members
          · split at h
            · exact .summary (.inl rfl) (digest_image_kind h)
            · split at h
              · exact .summary (.inr rfl) (digest_html_kind h)
              · cases h
                exact .whole _
  | .null, _, h => nomatch h
  | .bool _, _, h => nomatch h
  | .int _, _, h => nomatch h
  | .float _, _, h => nomatch h
  | .str _, _, h => nomatch h
  | .arr _, _, h => nomatch h

theorem record_fields_report : ∀ {members digested : List (String × Json)},
    record_fields host members = some digested →
      ∃ fields, (members.lookup "fields" = none ∧ fields = [] ∨
        members.lookup "fields" = some (.obj fields)) ∧ FieldsReport fields digested
  | [], digested, h => by
      cases h
      exact ⟨[], .inl ⟨rfl, rfl⟩, .nil⟩
  | (key, value) :: members, digested, h => by
      unfold record_fields at h
      by_cases hkey : key = "fields"
      · rw [if_pos hkey] at h
        obtain ⟨fields, rfl, hreports⟩ := items_of_report h
        exact ⟨fields, .inr (by rw [hkey, List.lookup_cons_self]), hreports⟩
      · rw [if_neg hkey] at h
        obtain ⟨fields, hfields, hreports⟩ := record_fields_report h
        have hlookup : ((key, value) :: members).lookup "fields" = members.lookup "fields" := by
          rw [List.lookup_cons, beq_false_of_ne (Ne.symm hkey)]
        exact ⟨fields, hlookup ▸ hfields, hreports⟩

theorem items_of_report : ∀ {value : Json} {digested : List (String × Json)},
    items_of host value = some digested →
      ∃ fields, value = .obj fields ∧ FieldsReport fields digested
  | .obj fields, _, h => ⟨fields, rfl, digest_fields_report h⟩
  | .null, _, h => nomatch h
  | .bool _, _, h => nomatch h
  | .int _, _, h => nomatch h
  | .float _, _, h => nomatch h
  | .str _, _, h => nomatch h
  | .arr _, _, h => nomatch h

theorem digest_fields_report : ∀ {fields digested : List (String × Json)},
    digest_fields host fields = some digested → FieldsReport fields digested
  | [], digested, h => by
      cases h
      exact .nil
  | (name, field) :: fields, digested, h => by
      unfold digest_fields at h
      simp only [Option.bind_eq_bind, Option.bind_eq_some_iff, Option.some.injEq] at h
      obtain ⟨first, hfirst, rest, hrest, rfl⟩ := h
      exact .cons (digest_payload_reports hfirst) (digest_fields_report hrest)

end

theorem Payload.digest_eq (payload : Payload host) :
    digest_payload host payload.json = some payload.digest :=
  (Option.some_get payload.digestible).symm

theorem Payload.reports (payload : Payload host) : Reports payload.json payload.digest :=
  digest_payload_reports payload.digest_eq

/-- A digest is a dictionary. -/
theorem digest_payload_isObj {payload digested : Json}
    (h : digest_payload host payload = some digested) : ∃ members, digested = .obj members := by
  cases digest_payload_reports h with
  | whole =>
      cases payload with
      | obj members => exact ⟨members, rfl⟩
      | _ => nomatch h
  | record => exact ⟨_, rfl⟩
  | cut hget =>
      cases digested with
      | obj members => exact ⟨members, rfl⟩
      | _ => nomatch hget
  | summary _ hget =>
      cases digested with
      | obj members => exact ⟨members, rfl⟩
      | _ => nomatch hget

theorem Payload.two_le_digest (payload : Payload host) :
    2 ≤ serialized_len host payload.digest := by
  obtain ⟨members, hmembers⟩ := digest_payload_isObj payload.digest_eq
  rw [serialized_len_eq, hmembers]
  exact CompactJson.two_le_size_obj host.float_repr members

/-! ## All results -/

/-- `_MARKER`. -/
def MARKER : Json :=
  .obj [("kind", .str "truncated"), ("reason", .str "digest size limit exceeded")]

/-- The room a port is taken to need besides its digest. -/
def framing (node_id port_name : String) : Nat := node_id.length + port_name.length + 16

/-- The ports of one node, with the bytes counted before and after. -/
def digest_ports (node_id : String) :
    Nat → List (String × Payload host) → Nat × List (String × Json)
  | total_bytes, [] => (total_bytes, [])
  | total_bytes, (port_name, payload) :: ports =>
      -- no room even for the names: the payload is not digested, and adds nothing
      if MAX_DIGEST_BYTES ≤ total_bytes + framing node_id port_name then
        let rest := digest_ports node_id total_bytes ports
        (rest.1, (port_name, MARKER) :: rest.2)
      else
        let serialized := serialized_len host payload.digest
        if MAX_DIGEST_BYTES < total_bytes + serialized + framing node_id port_name then
          let rest := digest_ports node_id total_bytes ports
          (rest.1, (port_name, MARKER) :: rest.2)
        else
          let rest := digest_ports node_id (total_bytes + serialized) ports
          (rest.1, (port_name, payload.digest) :: rest.2)

/-- The walk over the nodes. -/
def digest_nodes : Nat → List (String × Dict String (Payload host)) →
    List (String × Dict String Json)
  | _, [] => []
  | total_bytes, (node_id, ports) :: nodes =>
      let digested := digest_ports node_id total_bytes ports.entries
      (node_id, Dict.ofList digested.2) :: digest_nodes digested.1 nodes

/-- The digest as one JSON value. -/
def document (digested : Dict String (Dict String Json)) : Json :=
  .obj (digested.mapValues fun _ ports => .obj ports.entries).entries

variable (host)

/-- `del digested[next(reversed(digested))]` while the document is too large. -/
def drop_trailing (digested : Dict String (Dict String Json)) : Dict String (Dict String Json) :=
  match _h : digested.keys.getLast? with
  | none => digested
  | some node_id =>
      if MAX_DIGEST_BYTES < encoded_len host (document digested) then
        drop_trailing (digested.erase node_id)
      else digested
termination_by digested.size
decreasing_by
  obtain ⟨e, he, rfl⟩ := List.mem_map.mp (List.mem_of_getLast? _h)
  exact List.length_filter_lt_length_iff_exists.mpr ⟨e, he, by simp⟩

def digest_results (results : Dict String (Dict String (Payload host))) :
    Dict String (Dict String Json) :=
  drop_trailing host (Dict.ofList (digest_nodes 0 results.entries))

end EmergentFlow.Digest
