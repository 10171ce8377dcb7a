import EmergentFlow.Lib.CompactJson
import EmergentFlow.Ir.Serialize
import EmergentFlow.Ir.Current

/-!
# Ir — Deserialize

When `deserialize_graph` and `load_graph` come to a graph or one of their own
exceptions, and when a graph that is serialized comes back
(`emergentflow/ir/serialize.py`). The bytes of a file decide it, and the limits
of the parser, of the interpreter's stack and of the validator.
-/

namespace EmergentFlow.Wire

/-! ## The version checks -/

theorem coerce_version_of_newer {doc : Members} (h : not_newer doc = false) :
    ∃ err, (coerce_version doc >>= reject_if_newer) = .error err ∧
      err.is_deserialization_error = true := by
  rw [not_newer, declares] at h
  rw [coerce_version]
  cases hfound : found_version doc with
  | int i =>
      have hnewer : decide (i ≤ CURRENT_SCHEMA_VERSION) = false := by
        rw [hfound] at h
        exact h
      refine ⟨.SchemaVersionError i CURRENT_SCHEMA_VERSION, ?_, rfl⟩
      show Checks.guard _ _ = _
      rw [hnewer]
      rfl
  | _ => exact ⟨_, rfl, rfl⟩

theorem coerce_version_of_not_newer {doc : Members} (h : not_newer doc = true) :
    ∃ i, coerce_version doc = .ok i ∧ reject_if_newer i = .ok () := by
  obtain ⟨i, hi, hle⟩ := declares_iff.mp h
  refine ⟨i, by rw [coerce_version, hi], ?_⟩
  rw [reject_if_newer, Checks.guard_eq_ok]
  exact hle

theorem check_version_eq_ok {doc : Members} :
    check_version (some doc) = .ok () ↔ not_newer doc = true := by
  cases h : not_newer doc with
  | false =>
      obtain ⟨err, herr, -⟩ := coerce_version_of_newer h
      simp [check_version, herr]
  | true =>
      obtain ⟨i, hi, hreject⟩ := coerce_version_of_not_newer h
      rw [check_version, hi]
      simp [hreject, bind, Except.bind]

theorem check_version_error {doc : Members} {err : Raised}
    (h : check_version (some doc) = .error err) : err.is_deserialization_error = true := by
  have hnewer : not_newer doc = false := by
    rw [← Bool.not_eq_true, ← check_version_eq_ok, h]
    simp
  obtain ⟨err', herr', hdeclared⟩ := coerce_version_of_newer hnewer
  rw [check_version, herr'] at h
  cases h
  exact hdeclared

/-- The walk over the versions runs out of stack, or else what it raises is
declared. -/
theorem walk_error {doc : Members} {room : Nat} {err : Raised}
    (h : (iter_subgraph_dicts room doc).forM check_version = .error err) :
    err.is_deserialization_error = true ∨ err = .RecursionError := by
  obtain ⟨o, -, herr⟩ := Checks.forM_eq_error h
  cases o with
  | none => exact .inr (Except.error.inj herr).symm
  | some sub => exact .inl (check_version_error herr)

theorem walk_recursion_iff {doc : Members} {room : Nat} :
    (iter_subgraph_dicts room doc).forM check_version = .error .RecursionError ↔
      Room.Overflows not_newer (iter_subgraph_dicts room doc) := by
  have hend : check_version none = .error .RecursionError := rfl
  refine Room.forM_eq_error_iff hend ?_ fun sub _ => check_version_eq_ok
  intro sub _ herr
  cases check_version_error herr

/-- A walk that got through has seen all levels the migration comes to. -/
theorem mem_levels {doc sub : Members} {walk_room migrate_room : Nat}
    (hwalk : none ∉ iter_subgraph_dicts walk_room doc) (h : some sub ∈ levels migrate_room doc) :
    sub = doc ∨ some sub ∈ iter_subgraph_dicts walk_room doc := by
  induction migrate_room generalizing doc walk_room with
  | zero => simp [levels, Room.walk] at h
  | succ migrate_room ih =>
      cases walk_room with
      | zero => exact absurd (List.mem_singleton_self _) hwalk
      | succ walk_room =>
          rw [iter_subgraph_dicts] at hwalk ⊢
          rcases Room.mem_walk_succ.mp h with heq | ⟨child, hchild, hsub⟩
          · exact .inl (Option.some.inj heq)
          · right
            rw [List.mem_flatMap]
            refine ⟨child, hchild, ?_⟩
            have hinner : none ∉ iter_subgraph_dicts walk_room child := fun hnone =>
              hwalk (List.mem_flatMap.mpr ⟨child, hchild, List.mem_cons_of_mem _ hnone⟩)
            rcases ih hinner hsub with rfl | hmem
            · exact List.mem_cons_self
            · exact List.mem_cons_of_mem _ hmem

/-! ## Error-totality -/

/-- A graph with `p`, or an exception that the module declares. -/
def Total {α : Type} (p : α → Prop) : Except Raised α → Prop
  | .ok a => p a
  | .error err => err.is_deserialization_error = true

/-- What is promised of a graph that is returned: the model's invariants, at
the current version throughout. -/
structure Promised (env : Runtime) (n : Nat) (g : Graph (Loaded n)) : Prop where
  checked : (graph_model env n).Checked g
  current : Current (n + 1) g

/-- The stack has room for a document whose top level is no newer than this
build: for the walk over the versions up to the first that is rejected, and,
if none is, for the migration up to the first negative one. -/
structure RoomFor (env : Runtime) (doc : Members) : Prop where
  walk : ¬ Room.Overflows not_newer (iter_subgraph_dicts env.walk_room doc)
  migrate : (∀ sub, some sub ∈ iter_subgraph_dicts env.walk_room doc → not_newer sub = true) →
    ¬ Room.Overflows not_negative (levels env.migrate_room doc)

/-- The parser and the stack cope with the text. -/
def Readable (env : Runtime) (text : String) : Prop :=
  match env.loads text with
  | .error err => err = .JSONDecodeError
  | .ok (.obj doc) => not_newer doc = true → RoomFor env doc
  | .ok _ => True

theorem validated_promised {env : Runtime} {n : Nat} {doc : Members} {g : Graph (Loaded n)}
    (hdoc : CurrentDoc (n + 1) doc) (h : model_validate env n doc = some g) :
    Promised env n g := by
  rw [model_validate] at h
  split at h
  · exact ⟨((graph_model env n).valid_iff [] g).mp (((graph_model env n).codec []).sound h),
      current_of_decode (n := n + 1) (s := g) hdoc h⟩
  · cases h

section Document

variable {env : Runtime} {n : Nat} {doc : Members}

/-- A document of a newer version, or of none, is rejected at once. -/
theorem deserialize_newer (h : not_newer doc = false) :
    Total (Promised env n) (deserialize_document env n doc) := by
  obtain ⟨err, herr, hdeclared⟩ := coerce_version_of_newer h
  have hraise : deserialize_document env n doc = .error err := by
    rcases Checks.bind_eq_error.mp herr with hcoerce | ⟨i, hcoerce, hreject⟩
    · rw [deserialize_document, hcoerce]
      rfl
    · simp only [deserialize_document, hcoerce, hreject, bind, Except.bind]
  rw [hraise]
  exact hdeclared

variable (env n) in
/-- What follows the version checks. -/
theorem deserialize_not_newer (h : not_newer doc = true) : ∃ i, deserialize_document env n doc =
    ((iter_subgraph_dicts env.walk_room doc).forM check_version >>= fun _ =>
      (migrate_graph_level env.migrate_room doc).mapError (raised_of_migrate i) >>= fun migrated =>
        Checks.require (model_validate env n migrated)
          (.GraphDeserializationError .failed_validation)) := by
  obtain ⟨i, hi, hreject⟩ := coerce_version_of_not_newer h
  exact ⟨i, by simp only [deserialize_document, hi, hreject, bind, Except.bind]⟩

/-- Migration and validation of a document of known versions. -/
theorem deserialize_migrated (i : Int)
    (hlevels : ∀ sub, some sub ∈ levels env.migrate_room doc → not_newer sub = true) :
    Total (Promised env n)
        ((migrate_graph_level env.migrate_room doc).mapError (raised_of_migrate i) >>=
          fun migrated => Checks.require (model_validate env n migrated)
            (.GraphDeserializationError .failed_validation)) ↔
      ¬ Room.Overflows not_negative (levels env.migrate_room doc) := by
  rw [← migrate_recursion_iff hlevels]
  cases hmigrate : migrate_graph_level env.migrate_room doc with
  | error err =>
      rcases migrate_error hlevels hmigrate with rfl | rfl
      · exact ⟨fun _ => nofun, fun _ => rfl⟩
      · exact ⟨nofun, fun h => absurd rfl h⟩
  | ok migrated =>
      refine ⟨fun _ => nofun, fun _ => ?_⟩
      have hdoc := current_of_migrated hlevels hmigrate (n + 1)
      show Total _ (Checks.require (model_validate env n migrated) _)
      cases hg : model_validate env n migrated with
      | none => exact rfl
      | some g => exact validated_promised hdoc hg

/-- A walk that is cut short by a declared exception has met a version that
is rejected, and no end of the stack before. -/
theorem room_of_declared {err : Raised}
    (hwalk : (iter_subgraph_dicts env.walk_room doc).forM check_version = .error err)
    (herr : err ≠ .RecursionError) : RoomFor env doc := by
  constructor
  · rw [← walk_recursion_iff, hwalk]
    exact fun h => herr (Except.error.inj h)
  · intro hall
    obtain ⟨o, ho, hcheck⟩ := Checks.forM_eq_error hwalk
    cases o with
    | none => exact absurd (Except.error.inj hcheck).symm herr
    | some sub =>
        rw [check_version_eq_ok.mpr (hall sub ho)] at hcheck
        cases hcheck

/-- From a parsed dictionary on, only the room on the stack matters. -/
theorem deserialize_document_total : Total (Promised env n) (deserialize_document env n doc) ↔
    (not_newer doc = true → RoomFor env doc) := by
  cases hdoc : not_newer doc with
  | false => exact ⟨fun _ => nofun, fun _ => deserialize_newer hdoc⟩
  | true =>
      obtain ⟨i, hrun⟩ := deserialize_not_newer env n hdoc
      rw [hrun]
      cases hwalk : (iter_subgraph_dicts env.walk_room doc).forM check_version with
      | error err =>
          rcases walk_error hwalk with hdeclared | rfl
          · refine ⟨fun _ _ => room_of_declared hwalk ?_, fun _ => hdeclared⟩
            rintro rfl
            cases hdeclared
          · refine ⟨nofun, fun h => absurd ?_ (h rfl).walk⟩
            exact walk_recursion_iff.mp hwalk
      | ok u =>
          have hpass := Checks.forM_eq_ok.mp hwalk
          have hend : none ∉ iter_subgraph_dicts env.walk_room doc := fun h => by cases hpass _ h
          have hall : ∀ sub, some sub ∈ iter_subgraph_dicts env.walk_room doc →
              not_newer sub = true := fun sub hsub => check_version_eq_ok.mp (hpass _ hsub)
          have hlevels : ∀ sub, some sub ∈ levels env.migrate_room doc → not_newer sub = true := by
            intro sub hsub
            rcases mem_levels hend hsub with rfl | hsub
            · exact hdoc
            · exact hall sub hsub
          refine (deserialize_migrated i hlevels).trans ⟨fun h _ => ⟨?_, fun _ => h⟩, fun h =>
            (h rfl).migrate hall⟩
          rwa [Room.overflows_iff hall]

end Document

/-- A text is deserialized or refused by a declared exception exactly when the
parser and the stack cope with it. -/
theorem deserialize_graph_total {env : Runtime} {n : Nat} {text : String} :
    Total (Promised env n) (deserialize_graph env n text) ↔ Readable env text := by
  rw [deserialize_graph, Readable]
  cases hloads : env.loads text with
  | error err => cases err <;> simp [Except.mapError, raised_of_loads, bind, Except.bind, Total,
      Raised.is_deserialization_error]
  | ok parsed =>
      cases parsed with
      | obj doc => exact deserialize_document_total
      | _ => simp [Except.mapError, require_object, bind, Except.bind, Total,
          Raised.is_deserialization_error]

/-- A file is loaded or refused by a declared exception exactly when it cannot
be read at all, or is text and its text is readable. -/
theorem load_graph_total {env : Runtime} {n : Nat} {file : Option ByteArray} :
    Total (Promised env n) (load_graph env n file) ↔
      ∀ bytes, file = some bytes → ∃ text, read_text bytes = some text ∧ Readable env text := by
  cases file with
  | none => exact ⟨fun _ _ => nofun, fun _ => rfl⟩
  | some bytes =>
      cases htext : read_text bytes with
      | none => simp [load_graph, htext, bind, Except.bind, Total, Raised.is_deserialization_error]
      | some text =>
          have hload : load_graph env n (some bytes) = deserialize_graph env n text := by
            rw [load_graph, Checks.require_some]
            show (Checks.require (read_text bytes) _ >>= _) = _
            rw [htext]
            rfl
          simp [hload, deserialize_graph_total, htext]

/-! ## The round trip -/

section RoundTrip

variable {env : Runtime} {n : Nat}

/-- What `deserialize_graph` has done when it returns a graph. -/
structure Deserialized (env : Runtime) (n : Nat) (doc : Members) (g : Graph (Loaded n)) : Prop where
  not_newer : not_newer doc = true
  walk : ∀ o ∈ iter_subgraph_dicts env.walk_room doc, check_version o = .ok ()
  validated : ∃ migrated, migrate_graph_level env.migrate_room doc = .ok migrated ∧
    model_validate env n migrated = some g

theorem deserialize_document_eq_ok {doc : Members} {g : Graph (Loaded n)} :
    deserialize_document env n doc = .ok g ↔ Deserialized env n doc g := by
  cases hdoc : not_newer doc with
  | false =>
      obtain ⟨err, herr, hdeclared⟩ := coerce_version_of_newer hdoc
      constructor
      · intro h
        obtain ⟨i, hi, h⟩ := Checks.bind_eq_ok.mp h
        obtain ⟨hreject, -⟩ := Checks.then_eq_ok.mp h
        simp [hi, hreject, bind, Except.bind] at herr
      · intro h
        exact absurd h.not_newer (by simp [hdoc])
  | true =>
      obtain ⟨i, hrun⟩ := deserialize_not_newer env n hdoc
      rw [hrun, Checks.then_eq_ok, Checks.forM_eq_ok, Checks.bind_eq_ok]
      simp only [Checks.mapError_eq_ok, Checks.require_eq_ok]
      constructor
      · rintro ⟨hwalk, h⟩
        exact ⟨hdoc, hwalk, h⟩
      · intro h
        exact ⟨h.walk, h.validated⟩

theorem Deserialized.levels {doc : Members} {g : Graph (Loaded n)}
    (h : Deserialized env n doc g) (sub : Members)
    (hsub : some sub ∈ levels env.migrate_room doc) : Wire.not_newer sub = true := by
  have hend : none ∉ iter_subgraph_dicts env.walk_room doc := fun hnone => by
    cases h.walk _ hnone
  rcases mem_levels hend hsub with rfl | hmem
  · exact h.not_newer
  · exact check_version_eq_ok.mp (h.walk _ hmem)

theorem CurrentDoc.walk {doc sub : Members} (h : ∀ n, CurrentDoc n doc) {room : Nat}
    (hsub : some sub ∈ iter_subgraph_dicts room doc) : ∀ n, CurrentDoc n sub := by
  induction room generalizing doc with
  | zero => simp [iter_subgraph_dicts] at hsub
  | succ room ih =>
      rw [iter_subgraph_dicts, List.mem_flatMap] at hsub
      obtain ⟨child, hchild, hsub⟩ := hsub
      have hcurrent : ∀ n, CurrentDoc n child := fun n => (h (n + 1)).2 child hchild
      rcases List.mem_cons.mp hsub with heq | hsub
      · cases heq
        exact hcurrent
      · exact ih hcurrent hsub

/-- The document that a graph is written as. -/
def written (env : Runtime) (g : Graph (Loaded n)) : Members :=
  g.members (Loaded.model env.coercions n).dump

/-- The serialized graph comes back. -/
def RoundTrips (env : Runtime) (g : Graph (Loaded n)) : Prop :=
  ∃ text, serialize_graph env g = some text ∧ deserialize_graph env n text = .ok g

/-- The graph is nested no deeper, and has no longer numbers, than the writer,
the parser, the stack and the validator take. -/
structure WithinLimits (env : Runtime) (g : Graph (Loaded n)) : Prop where
  text : ∃ text, serialize_graph env g = some text ∧ env.loads text = .ok (.obj (written env g))
  walk : none ∉ iter_subgraph_dicts env.walk_room (written env g)
  migrate : none ∉ levels env.migrate_room (written env g)
  guard : env.within_guard (written env g) = true

/-- What the parser makes of the text of the graph is the document it was
written from. -/
def ReadsBack (env : Runtime) (g : Graph (Loaded n)) : Prop :=
  ∀ text j, serialize_graph env g = some text → env.loads text = .ok j → j = .obj (written env g)

variable {g : Graph (Loaded n)}

theorem deserialize_written (hchecked : (graph_model env n).Checked g)
    (hfinite : (graph_model env n).Finite g) :
    deserialize_document env n (written env g) = .ok g ↔ Current (n + 1) g ∧
      none ∉ iter_subgraph_dicts env.walk_room (written env g) ∧
      none ∉ levels env.migrate_room (written env g) ∧
      env.within_guard (written env g) = true := by
  have hwritten : Current (n + 1) g → ∀ m, CurrentDoc m (written env g) := fun hcurrent =>
    have hdump : (Loaded.model env.coercions (n + 1)).dump g = .obj (written env g) := rfl
    currentDoc_of_dump hcurrent hdump
  rw [deserialize_document_eq_ok]
  constructor
  · intro h
    obtain ⟨migrated, hmigrate, hvalidate⟩ := h.validated
    have hdoc := current_of_migrated h.levels hmigrate (n + 1)
    have hcurrent := (validated_promised hdoc hvalidate).current
    have hroom : none ∉ levels env.migrate_room (written env g) := by
      have hpass := Checks.void_eq_ok.mpr ⟨migrated, hmigrate⟩
      rw [void_migrate_graph_level, Checks.forM_eq_ok] at hpass
      exact fun hnone => by cases hpass _ hnone
    -- a current document comes through the migration unchanged
    rw [migrate_eq_self (hwritten hcurrent) hroom] at hmigrate
    cases hmigrate
    refine ⟨hcurrent, fun hnone => ?_, hroom, ?_⟩
    · cases h.walk _ hnone
    · by_contra hguard
      rw [model_validate, if_neg hguard] at hvalidate
      cases hvalidate
  · rintro ⟨hcurrent, hwalk, hroom, hguard⟩
    have hdoc := hwritten hcurrent
    refine ⟨(hdoc 1).not_newer, fun o ho => ?_, _, migrate_eq_self hdoc hroom, ?_⟩
    · cases o with
      | none => exact absurd ho hwalk
      | some sub => exact check_version_eq_ok.mpr (CurrentDoc.walk hdoc ho 1).not_newer
    · rw [model_validate, if_pos hguard]
      have hback := ((graph_model env n).codec []).complete
        (((graph_model env n).valid_iff [] g).mpr hchecked)
        (((graph_model env n).expressible_iff [] g).mpr hfinite)
      rwa [(graph_model env n).encode_eq] at hback

/-- A valid graph of finite numbers comes back exactly when it is at the
current version on every level and within the limits. -/
theorem round_trips_iff (hchecked : (graph_model env n).Checked g)
    (hfinite : (graph_model env n).Finite g) (hread : ReadsBack env g) :
    RoundTrips env g ↔ Current (n + 1) g ∧ WithinLimits env g := by
  have hload : ∀ text, env.loads text = .ok (.obj (written env g)) →
      deserialize_graph env n text = deserialize_document env n (written env g) := by
    intro text htext
    rw [deserialize_graph, htext]
    rfl
  constructor
  · rintro ⟨text, hser, hback⟩
    obtain ⟨j, hj, -⟩ := Checks.bind_eq_ok.mp hback
    rw [Checks.mapError_eq_ok] at hj
    rw [hread text j hser hj] at hj
    rw [hload text hj, deserialize_written hchecked hfinite] at hback
    exact ⟨hback.1, ⟨text, hser, hj⟩, hback.2.1, hback.2.2.1, hback.2.2.2⟩
  · rintro ⟨hcurrent, ⟨text, hser, hj⟩, hwalk, hmigrate, hguard⟩
    refine ⟨text, hser, ?_⟩
    rw [hload text hj, deserialize_written hchecked hfinite]
    exact ⟨hcurrent, hwalk, hmigrate, hguard⟩

end RoundTrip

/-- When loading is total and when a graph comes back: a text is deserialized
or refused by a declared exception exactly when it is readable, a file exactly
when its bytes are text that is readable, and a valid graph of finite numbers
comes back exactly when it is current on every level and within the limits. -/
theorem deserialization_iff (env : Runtime) (n : Nat) :
    (∀ text, Total (Promised env n) (deserialize_graph env n text) ↔ Readable env text) ∧
      (∀ file, Total (Promised env n) (load_graph env n file) ↔ ∀ bytes, file = some bytes →
        ∃ text, read_text bytes = some text ∧ Readable env text) ∧
      ∀ g, (graph_model env n).Checked g → (graph_model env n).Finite g → ReadsBack env g →
        (RoundTrips env g ↔ Current (n + 1) g ∧ WithinLimits env g) :=
  ⟨fun _ => deserialize_graph_total, fun _ => load_graph_total,
    fun _ hchecked hfinite hread => round_trips_iff hchecked hfinite hread⟩

/-- No coercion of anything else. -/
def strict_coercions : Coercions where
  int := fun | .int i => some i | _ => none
  float := fun | .float x => some x | _ => none
  bool := fun | .bool b => some b | _ => none
  new_id := String.intercalate "/"
  int_self := fun _ => rfl
  float_self := fun _ => rfl
  bool_self := fun _ => rfl

/-- The writer of `indent=None` on texts in ASCII. -/
def compact (j : Json) : String :=
  CompactJson.dumps (fun x => if x = 1 / 2 then "0.5" else "0.0") j

/-- A runtime whose parser knows the text of one document. -/
def small_runtime (known : Json) : Runtime where
  coercions := strict_coercions
  loads := fun text => if text = compact known then .ok known else .error .JSONDecodeError
  render := fun j => some (compact j)
  within_guard := fun _ => true
  walk_room := 900
  migrate_room := 300

/-- A param with a value of each kind. -/
def every_param : List Param :=
  [{ name := "nothing", type_token := "any" },
    { name := "header", type_token := "bool", value := .bool true, default := .bool false },
    { name := "limit", type_token := "int", value := .int 3, ref := some "rows" },
    { name := "share", type_token := "float", value := .float (.finite (1 / 2)) },
    { name := "path", type_token := "str", value := .str "rows.csv", description := some "CSV" },
    { name := "schema", type_token := "artifact",
      value := .artifact_ref { uri := "s3://rows/schema", media_type := some "text/csv" } },
    { name := "columns", type_token := "list", value := .sequence [.str "a", .int 1, .none] },
    { name := "renamed", type_token := "dict",
      value := .mapping [("a", .str "b"), ("kind", .sequence [])] }]

/-- The graph inside the composite. -/
def inner_graph : Graph (Loaded 0) where
  name := some "inner"
  nodes := Dict.ofList [("drop", {
    id := "drop"
    type := "clean.drop_missing"
    params := [{ name := "how", type_token := "str", value := .str "any" }]
    ports := [{ id := "in", name := "df", direction := .IN, data_type := "dataframe" }] })]

/-- Rows that are loaded and go into a composite. -/
def nested_graph : Graph (Loaded 1) where
  nodes := Dict.ofList [
    ("load", {
      id := "load"
      type := "data.load_csv"
      params := every_param
      ports := [{ id := "out", name := "rows", direction := .OUT, data_type := "dataframe" }] }),
    ("box", {
      id := "box"
      type := "layout.composite"
      label := some "Cleaning"
      ports := [{
        id := "in"
        name := "df"
        direction := .IN
        data_type := "dataframe"
        cardinality := .MANY }]
      subgraph := some inner_graph })]
  edges := Dict.ofList [("e", {
    id := "e"
    source := { node_id := "load", port_id := "out" }
    target := { node_id := "box", port_id := "in" }
    type_compatible := some true })]
  params := Dict.ofList [("rows", { name := "rows", type_token := "int", value := .int 3 })]

/-- The runtime that knows its text. -/
def nested_runtime : Runtime :=
  small_runtime (.obj (nested_graph.members (Loaded.model strict_coercions 1).dump))

/-- The parser reads the text back that the writer makes of the document. -/
theorem small_runtime_loads (known : Json) :
    (small_runtime known).loads (compact known) = .ok known := if_pos rfl

theorem every_param_checked : ∀ p ∈ every_param, p.Checked := by
  simp only [every_param, List.mem_cons, List.not_mem_nil, or_false, forall_eq_or_imp, forall_eq,
    Param.checked_iff, ParamValue.Checked, ItemsChecked, MembersChecked, ArtifactRef.Checked,
    List.lookup_cons, String.reduceBEq, BEq.rfl, Option.some.injEq, reduceCtorEq, ne_eq,
    not_false_eq_true, and_self, and_true]
  decide

theorem every_param_finite : ∀ p ∈ every_param, p.Finite := by
  simp [every_param, Param.finite_iff, ParamValue.Finite, ItemsFinite, MembersFinite,
    float_is_finite]

theorem inner_graph_checked : (graph_model nested_runtime 0).Checked inner_graph where
  nodes key n h := by
    have hn := Dict.mem_of_get?_ofList h
    rw [List.mem_singleton] at hn
    obtain ⟨-, rfl⟩ := Prod.mk.inj hn
    refine ⟨by decide, ?_, ?_, nofun⟩
    · simp only [List.forall_mem_singleton, Param.checked_iff, ParamValue.Checked, and_true]
      decide
    · simp only [List.forall_mem_singleton, Port.Checked]
      decide
  edges := nofun
  params := nofun
  structured := Graph.structured_iff.mp (by decide)

theorem inner_graph_finite : (graph_model nested_runtime 0).Finite inner_graph where
  nodes key n h := by
    have hn := Dict.mem_of_get?_ofList h
    rw [List.mem_singleton] at hn
    obtain ⟨-, rfl⟩ := Prod.mk.inj hn
    exact ⟨by simp [Param.finite_iff, ParamValue.Finite], ⟨rfl, rfl⟩, nofun⟩
  params := nofun

theorem nested_graph_checked : (graph_model nested_runtime 1).Checked nested_graph where
  nodes key n h := by
    have hn := Dict.mem_of_get?_ofList h
    simp only [List.mem_cons, List.not_mem_nil, or_false, Prod.mk.injEq] at hn
    obtain ⟨-, rfl⟩ | ⟨-, rfl⟩ := hn
    · refine ⟨by decide, every_param_checked, ?_, nofun⟩
      simp only [List.forall_mem_singleton, Port.Checked]
      decide
    · refine ⟨by decide, nofun, ?_, fun s hs => ?_⟩
      · simp only [List.forall_mem_singleton, Port.Checked]
        decide
      · cases hs
        exact inner_graph_checked
  edges key e h := by
    have he := Dict.mem_of_get?_ofList h
    rw [List.mem_singleton] at he
    obtain ⟨-, rfl⟩ := Prod.mk.inj he
    exact ⟨⟨by decide, by decide⟩, by decide, by decide⟩
  params key p h := by
    have hp := Dict.mem_of_get?_ofList h
    rw [List.mem_singleton] at hp
    obtain ⟨-, rfl⟩ := Prod.mk.inj hp
    exact ⟨by decide, by decide, trivial, trivial⟩
  structured := Graph.structured_iff.mp (by decide)

theorem nested_graph_finite : (graph_model nested_runtime 1).Finite nested_graph where
  nodes key n h := by
    have hn := Dict.mem_of_get?_ofList h
    simp only [List.mem_cons, List.not_mem_nil, or_false, Prod.mk.injEq] at hn
    obtain ⟨-, rfl⟩ | ⟨-, rfl⟩ := hn
    · exact ⟨every_param_finite, ⟨rfl, rfl⟩, nofun⟩
    · refine ⟨nofun, ⟨rfl, rfl⟩, fun s hs => ?_⟩
      cases hs
      exact inner_graph_finite
  params key p h := by
    have hp := Dict.mem_of_get?_ofList h
    rw [List.mem_singleton] at hp
    obtain ⟨-, rfl⟩ := Prod.mk.inj hp
    exact ⟨trivial, trivial⟩

theorem nested_graph_current : Current 2 nested_graph where
  version := rfl
  inner key n s h hs := by
    have hn := Dict.mem_of_get?_ofList h
    simp only [List.mem_cons, List.not_mem_nil, or_false, Prod.mk.injEq] at hn
    obtain ⟨-, rfl⟩ | ⟨-, rfl⟩ := hn
    · cases hs
    · cases hs
      exact ⟨rfl, fun _ _ s => nomatch s⟩

theorem nested_graph_comes_back : RoundTrips nested_runtime nested_graph := by
  have hwalk : iter_subgraph_dicts 900 (written nested_runtime nested_graph) =
    [some (written nested_runtime inner_graph)] := rfl
  have hlevels : levels 300 (written nested_runtime nested_graph) =
    [some (written nested_runtime nested_graph), some (written nested_runtime inner_graph)] := rfl
  have hloads : nested_runtime.loads (compact (.obj (written nested_runtime nested_graph))) =
      .ok (.obj (written nested_runtime nested_graph)) := small_runtime_loads _
  refine ((deserialization_iff nested_runtime 1).2.2 nested_graph nested_graph_checked
    nested_graph_finite ?_).mpr ⟨nested_graph_current, ⟨_, rfl, hloads⟩, ?_, ?_, rfl⟩
  · intro text j htext hj
    have htext' : compact (.obj (written nested_runtime nested_graph)) = text :=
      Option.some.inj htext
    rw [← htext', hloads] at hj
    exact (Except.ok.inj hj).symm
  · show none ∉ iter_subgraph_dicts 900 _
    rw [hwalk]
    simp
  · show none ∉ levels 300 _
    rw [hlevels]
    simp

/-- A byte that no UTF-8 text has makes loading fail with an exception that
the module does not declare. -/
theorem stray_byte_escapes :
    load_graph nested_runtime 0 (some ⟨#[0xff]⟩) = .error .UnicodeDecodeError ∧
      ¬ Total (Promised nested_runtime 0) (load_graph nested_runtime 0 (some ⟨#[0xff]⟩)) := by
  have htext : read_text ⟨#[0xff]⟩ = none := by decide
  have hraise : load_graph nested_runtime 0 (some ⟨#[0xff]⟩) = .error .UnicodeDecodeError := by
    simp [load_graph, htext, bind, Except.bind]
  refine ⟨hraise, ?_⟩
  rw [hraise]
  exact nofun

end EmergentFlow.Wire
