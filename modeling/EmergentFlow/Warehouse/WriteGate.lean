import EmergentFlow.Warehouse.Query

/-!
# Warehouse — WriteGate

What caller SQL reaches an adapter. On a connection profile that is not
enabled for writes it should all have passed the read-only check.
`write_gate_iff` says for which queries it has: the dry run of the client
does not look at the profile's flag.
-/

namespace EmergentFlow

open Transaction

variable {Stmt Spec : Type}

/-! ## What reaches an adapter -/

/-- The adapter call a request comes to, if any. -/
def AdapterClient.call (client : AdapterClient) (request : QueryRequest) : Option AdapterCall :=
  match client.resolve request.connection with
  | .error _ => none
  | .ok profile =>
      if (client.adapters profile.dialect).isSome &&
          (request.dry_run || request.read_only || profile.write_enabled) then
        some ⟨profile.dialect, request.dry_run, request⟩
      else none

theorem AdapterClient.dry_run_log (client : AdapterClient) {request : QueryRequest}
    (h : request.dry_run = true) (log : List AdapterCall) :
    (client.dry_run request log).2 = log ++ (client.call request).toList := by
  rw [AdapterClient.dry_run, AdapterClient.call]
  cases hprofile : client.resolve request.connection with
  | error e => exact (List.append_nil log).symm
  | ok profile =>
      rw [lift_ok_bind, AdapterClient.adapter_for]
      cases hadapter : client.adapters profile.dialect with
      | none =>
          simp only [hadapter]
          exact (List.append_nil log).symm
      | some adapter =>
          simp only [hadapter, h, Option.isSome_some, Bool.true_or, Bool.and_true, if_true]
          rfl

theorem AdapterClient.execute_log (client : AdapterClient) {request : QueryRequest}
    (h : request.dry_run = false) (log : List AdapterCall) :
    (client.execute request log).2 = log ++ (client.call request).toList := by
  rw [AdapterClient.execute, AdapterClient.call]
  cases hprofile : client.resolve request.connection with
  | error e => exact (List.append_nil log).symm
  | ok profile =>
      rw [lift_ok_bind, AdapterClient.adapter_for]
      cases hwrite : request.read_only || profile.write_enabled with
      | false =>
          simp only [h, Bool.false_or, hwrite, Bool.and_false, Bool.false_eq_true, if_false]
          exact (List.append_nil log).symm
      | true =>
          rw [bind_of_ok ((check_eq_ok (u := ())).mpr ⟨rfl, rfl⟩)]
          cases hadapter : client.adapters profile.dialect with
          | none =>
              simp only [hadapter]
              exact (List.append_nil log).symm
          | some adapter =>
              simp only [hadapter, h, Bool.false_or, hwrite, Option.isSome_some, Bool.and_true,
                if_true]
              -- what follows the call of the adapter reaches no other
              have hrest : Reads (do
                  let result ← lift (adapter.execute request)
                  lift (enforce_byte_scan_cap request result)
                  return result : WarehouseM QueryResult) :=
                (Reads.lift _).bind fun _ => (Reads.lift _).bind fun _ => .pure _
              exact hrest _

theorem AdapterClient.run_log (client : AdapterClient) (request : QueryRequest)
    (log : List AdapterCall) : (client.run request log).2 = log ++ (client.call request).toList := by
  rw [AdapterClient.run]
  cases h : request.dry_run with
  | false => exact client.execute_log h log
  | true =>
      rw [if_pos rfl, map_apply_snd]
      exact client.dry_run_log h log

/-- A query reaches at most one adapter, with the SQL it has built. -/
theorem mem_sent_iff {sg : Sqlglot Stmt} {compile_spec : Spec → String → Except QueryError String}
    {client : AdapterClient} {args : QueryArgs Spec} {a : AdapterCall} :
    a ∈ sent sg compile_spec (some client) args ↔
      ∃ sql, args.compiled_sql sg compile_spec = .ok sql ∧
        client.call (args.request sql) = some a := by
  rw [sent, query, Checks.require_some, lift_ok_bind]
  cases hsql : args.compiled_sql sg compile_spec with
  | error e =>
      rw [lift_error_bind, raise_apply]
      simp
  | ok sql =>
      rw [lift_ok_bind, client.run_log]
      simp

theorem AdapterClient.call_eq_some {client : AdapterClient} {request : QueryRequest}
    {a : AdapterCall} : client.call request = some a ↔
      ∃ profile, client.resolve request.connection = .ok profile ∧
        (client.adapters profile.dialect).isSome = true ∧
        (request.dry_run = true ∨ request.read_only = true ∨ profile.write_enabled = true) ∧
        a = ⟨profile.dialect, request.dry_run, request⟩ := by
  rw [AdapterClient.call]
  cases client.resolve request.connection with
  | error e => simp
  | ok profile =>
      simp only [Except.ok.injEq, exists_eq_left', Option.ite_none_right_eq_some,
        Option.some.injEq, Bool.and_eq_true, Bool.or_eq_true, and_assoc, or_assoc,
        eq_comm (a := a)]

/-! ## The law -/

section Law

variable (sg : Sqlglot Stmt)

/-- All statements pass the read-only check. -/
def Sqlglot.Permitted (statements : List Stmt) : Prop :=
  ∀ stmt ∈ statements, sg.check_statement stmt = .ok ()

/-- In this dialect the text is one statement, which the read-only check
permits. -/
def Sqlglot.SingleRead (sql dialect : String) : Prop :=
  ∃ stmt, sg.statements sql dialect = some [stmt] ∧ sg.check_statement stmt = .ok ()

/-- All caller SQL that reaches an adapter was accepted by the read-only
check, and is a single read to the database of the adapter, which takes
texts as the library parses them in its dialect. -/
def WriteGate (compile_spec : Spec → String → Except QueryError String) (client : AdapterClient)
    (args : QueryArgs Spec) : Prop :=
  ∀ text, args.sql = some text → ∀ a ∈ sent sg compile_spec (some client) args,
    sg.validate_read_only_sql text args.dialect true = .ok text ∧
      sg.SingleRead a.request.sql a.dialect

/-- The SQL of the request, once the caller's has been parsed. -/
def Sqlglot.built (text dialect : String) (max_rows : Option Int) (statements : List Stmt) : String :=
  match max_rows with
  | none => text
  | some max_rows =>
      "; ".intercalate (statements.map fun stmt => sg.sql (sg.limited max_rows stmt) dialect)

/-- Unless it is turned away for another reason, the query is refused by
the read-only check or by the client, or its statements pass the check and
are one: a single one when the adapter has the dialect of the query, else
one that its dialect reads as a single read as well. -/
def Gated (client : AdapterClient) (args : QueryArgs Spec) : Prop :=
  ∀ text statements profile, args.sql = some text → args.spec = none →
    sg.known_dialect args.dialect = true →
    sg.statements text args.dialect = some statements → statements ≠ [] →
    client.resolve args.connection = .ok profile →
    (client.adapters profile.dialect).isSome = true →
    (args.read_only = false ∧ args.dry_run = false) ∨
      (args.read_only = true ∧ ¬ sg.Permitted statements) ∨
      (sg.Permitted statements ∧
        if profile.dialect = args.dialect then statements.length = 1
        else sg.SingleRead (sg.built text args.dialect args.max_rows statements) profile.dialect)

variable {sg}

theorem Sqlglot.validate_eq_ok {sql sql' dialect : String} {read_only : Bool} :
    sg.validate_read_only_sql sql dialect read_only = .ok sql' ↔
      ∃ statements, sg.statements sql dialect = some statements ∧ statements ≠ [] ∧
        (read_only = true → sg.Permitted statements) ∧ sql = sql' := by
  simp only [Sqlglot.validate_read_only_sql, Checks.bind_eq_ok, Checks.require_eq_ok]
  apply exists_congr
  intro statements
  apply and_congr_right
  intro _
  constructor
  · rintro ⟨⟨⟩, hsome, ⟨⟩, hcheck, hsql⟩
    refine ⟨by simpa using hsome, ?_, Except.ok.inj hsql⟩
    rintro rfl
    exact Checks.forM_eq_ok.mp hcheck
  · rintro ⟨hsome, hcheck, rfl⟩
    refine ⟨(), by simpa using hsome, (), ?_, rfl⟩
    cases read_only with
    | false => rfl
    | true => exact Checks.forM_eq_ok.mpr (hcheck rfl)

theorem Sqlglot.inject_limit_eq {text dialect : String} {max_rows : Option Int}
    {statements : List Stmt} (h : sg.statements text dialect = some statements) :
    sg.inject_limit text dialect max_rows = .ok (sg.built text dialect max_rows statements) := by
  cases max_rows with
  | none => rfl
  | some n =>
      rw [Sqlglot.inject_limit, h]
      rfl

/-- What a query of caller SQL builds. -/
theorem compiled_sql_eq_ok (compile_spec : Spec → String → Except QueryError String)
    {args : QueryArgs Spec} {text sql : String} (htext : args.sql = some text) :
    args.compiled_sql sg compile_spec = .ok sql ↔
      args.spec = none ∧ sg.known_dialect args.dialect = true ∧
        ∃ statements, sg.statements text args.dialect = some statements ∧ statements ≠ [] ∧
          (args.read_only = true → sg.Permitted statements) ∧
          sql = sg.built text args.dialect args.max_rows statements := by
  rw [QueryArgs.compiled_sql, htext]
  cases hspec : args.spec with
  | some spec => simp
  | none =>
      simp only [Checks.bind_eq_ok, Sqlglot.validate_eq_ok, true_and]
      constructor
      · rintro ⟨⟨⟩, hknown, _, ⟨statements, hparse, hsome, hpermitted, rfl⟩, hinject⟩
        rw [Sqlglot.inject_limit_eq hparse, Except.ok.injEq] at hinject
        exact ⟨Checks.guard_eq_ok.mp hknown, statements, hparse, hsome, hpermitted, hinject.symm⟩
      · rintro ⟨hknown, statements, hparse, hsome, hpermitted, rfl⟩
        exact ⟨(), Checks.guard_eq_ok.mpr hknown, text, ⟨statements, hparse, hsome, hpermitted, rfl⟩,
          Sqlglot.inject_limit_eq hparse⟩

/-- A statement is as permitted with a limit as without. -/
theorem Sqlglot.permitted_limited
    (hlimit : ∀ stmt n, sg.check_statement (sg.set_limit stmt n) = .ok () ↔
      sg.check_statement stmt = .ok ()) (stmt : Stmt) (max_rows : Int) :
    sg.check_statement (sg.limited max_rows stmt) = .ok () ↔ sg.check_statement stmt = .ok () := by
  rw [Sqlglot.limited]
  split
  · rfl
  · exact hlimit stmt _

/-- When what is rendered parses back, the SQL that is built is a single
read in the dialect of the query when the caller's is. -/
theorem Sqlglot.singleRead_built_iff {text dialect : String} {max_rows : Option Int}
    {statements : List Stmt} (hparse : sg.statements text dialect = some statements)
    (hround : ∀ n, max_rows = some n →
      sg.statements (sg.built text dialect max_rows statements) dialect =
        some (statements.map (sg.limited n)))
    (hlimit : ∀ stmt n, sg.check_statement (sg.set_limit stmt n) = .ok () ↔
      sg.check_statement stmt = .ok ()) :
    sg.SingleRead (sg.built text dialect max_rows statements) dialect ↔
      statements.length = 1 ∧ sg.Permitted statements := by
  rw [List.length_eq_one_iff]
  cases max_rows with
  | none =>
      rw [Sqlglot.SingleRead, Sqlglot.built, hparse]
      constructor
      · rintro ⟨stmt, hsingle, hcheck⟩
        cases hsingle
        exact ⟨⟨stmt, rfl⟩, by simpa [Sqlglot.Permitted] using hcheck⟩
      · rintro ⟨⟨stmt, rfl⟩, hpermitted⟩
        exact ⟨stmt, rfl, hpermitted stmt List.mem_cons_self⟩
  | some n =>
      rw [Sqlglot.SingleRead, hround n rfl]
      constructor
      · rintro ⟨stmt, hsingle, hcheck⟩
        rw [Option.some.injEq, List.map_eq_singleton_iff] at hsingle
        obtain ⟨stmt, rfl, rfl⟩ := hsingle
        rw [Sqlglot.permitted_limited hlimit] at hcheck
        exact ⟨⟨stmt, rfl⟩, by simpa [Sqlglot.Permitted] using hcheck⟩
      · rintro ⟨⟨stmt, rfl⟩, hpermitted⟩
        exact ⟨_, rfl, (Sqlglot.permitted_limited hlimit _ _).mpr
          (hpermitted stmt List.mem_cons_self)⟩

end Law

/-- On a profile that is not enabled for writes, caller SQL goes through
the gate exactly when the query is gated. What the library renders it
parses back, and a limit does not change what a statement does. -/
theorem write_gate_iff (sg : Sqlglot Stmt)
    (compile_spec : Spec → String → Except QueryError String) (client : AdapterClient)
    (args : QueryArgs Spec)
    (hprofile : ∀ profile, client.resolve args.connection = .ok profile →
      profile.write_enabled = false)
    (hround : ∀ text statements n, args.sql = some text → args.max_rows = some n →
      sg.statements text args.dialect = some statements →
      sg.statements (sg.built text args.dialect args.max_rows statements) args.dialect =
        some (statements.map (sg.limited n)))
    (hlimit : ∀ stmt n, sg.check_statement (sg.set_limit stmt n) = .ok () ↔
      sg.check_statement stmt = .ok ()) :
    WriteGate sg compile_spec client args ↔ Gated sg client args := by
  have hbuilt : ∀ text statements, args.sql = some text →
      sg.statements text args.dialect = some statements →
      (sg.SingleRead (sg.built text args.dialect args.max_rows statements) args.dialect ↔
        statements.length = 1 ∧ sg.Permitted statements) := fun text statements htext hparse =>
    Sqlglot.singleRead_built_iff hparse (fun n hn => hround text statements n htext hn hparse) hlimit
  constructor
  · intro h text statements profile htext hspec hknown hparse hsome hresolve hadapter
    -- neither flag set: the client refuses the call, as the profile enables no write
    by_cases hrefused : args.read_only = false ∧ args.dry_run = false
    · exact .inl hrefused
    by_cases hrejected : args.read_only = true ∧ ¬ sg.Permitted statements
    · exact .inr (.inl hrejected)
    right
    right
    have hcompiled := (compiled_sql_eq_ok compile_spec htext).mpr
      ⟨hspec, hknown, statements, hparse, hsome, fun hro => not_not.mp (not_and.mp hrejected hro),
        rfl⟩
    obtain ⟨haccepted, hread⟩ := h text htext _ (mem_sent_iff.mpr ⟨_, hcompiled,
      AdapterClient.call_eq_some.mpr ⟨profile, hresolve, hadapter, by
        cases hro : args.read_only <;> cases hdry : args.dry_run <;>
          simp [QueryArgs.request, hro, hdry] at hrefused ⊢, rfl⟩⟩)
    obtain ⟨statements', hparse', -, hpermitted, -⟩ := Sqlglot.validate_eq_ok.mp haccepted
    rw [hparse, Option.some.injEq] at hparse'
    subst hparse'
    refine ⟨hpermitted rfl, ?_⟩
    split
    next hsame => exact ((hbuilt text statements htext hparse).mp (hsame ▸ hread)).1
    next => exact hread
  · intro h text htext a ha
    obtain ⟨sql, hcompiled, hcall⟩ := mem_sent_iff.mp ha
    obtain ⟨hspec, hknown, statements, hparse, hsome, hpermitted, rfl⟩ :=
      (compiled_sql_eq_ok compile_spec htext).mp hcompiled
    obtain ⟨profile, hresolve, hadapter, hflags, rfl⟩ := AdapterClient.call_eq_some.mp hcall
    rcases h text statements profile htext hspec hknown hparse hsome hresolve hadapter with
      ⟨hro, hdry⟩ | ⟨hro, hnot⟩ | ⟨hpermitted, hread⟩
    · -- the client refuses to run it
      rcases hflags with hflag | hflag | hflag
      · exact absurd (hdry.symm.trans hflag) Bool.false_ne_true
      · exact absurd (hro.symm.trans hflag) Bool.false_ne_true
      · exact absurd ((hprofile profile hresolve).symm.trans hflag) Bool.false_ne_true
    · exact absurd (hpermitted hro) hnot
    · refine ⟨Sqlglot.validate_eq_ok.mpr ⟨statements, hparse, hsome, fun _ => hpermitted, rfl⟩, ?_⟩
      split at hread
      next hsame =>
        have hsingle := (hbuilt text statements htext hparse).mpr ⟨hread, hpermitted⟩
        exact hsame.symm ▸ hsingle
      next => exact hread

/-! ## The dry run of a write -/

inductive OneLiner where
  | select_one
  | delete_from_t
  deriving DecidableEq

/-- The library on two texts. -/
def one_liners : Sqlglot OneLiner where
  known_dialect dialect := dialect = "postgres"
  parse sql _ :=
    if sql = "SELECT 1" then some [some .select_one]
    else if sql = "DELETE FROM t" then some [some .delete_from_t]
    else none
  type_name
    | .select_one => "Select"
    | .delete_from_t => "Delete"
  isinstance stmt name :=
    match stmt with
    | .select_one => name = "Select"
    | .delete_from_t => name = "Delete"
  find stmt names :=
    match stmt with
    | .select_one => if "Select" ∈ names then some .select_one else none
    | .delete_from_t => if "Delete" ∈ names then some .delete_from_t else none
  has_limit _ := false
  set_limit stmt _ := stmt
  sql
    | .select_one, _ => "SELECT 1"
    | .delete_from_t, _ => "DELETE FROM t"

/-- A client with one Postgres profile, not enabled for writes. -/
def postgres_client : AdapterClient where
  resolve connection :=
    if connection = "wh" then .ok { dialect := "postgres" } else .error (.connection connection)
  adapters dialect :=
    if dialect = "postgres" then
      some { execute := fun _ => .ok { dialect := "postgres", row_count := 0 }
             dry_run := fun _ => .ok { dialect := "postgres" } }
    else none

def no_specs (_ : Empty) (_ : String) : Except QueryError String := .error .sqlglot

/-- A delete that asks for writes and for a dry run. -/
def dry_run_delete : QueryArgs Empty where
  connection := "wh"
  dialect := "postgres"
  sql := some "DELETE FROM t"
  read_only := false
  dry_run := true

/-- It reaches the adapter, to be explained. -/
theorem dry_run_delete_breaks_gate :
    ¬ WriteGate one_liners no_specs postgres_client dry_run_delete := by
  intro h
  have hsent : sent one_liners no_specs (some postgres_client) dry_run_delete =
      [⟨"postgres", true, dry_run_delete.request "DELETE FROM t"⟩] := rfl
  obtain ⟨haccepted, -⟩ := h _ rfl _ (hsent ▸ List.mem_cons_self)
  cases haccepted

/-- A dry run of a read. -/
def dry_run_select : QueryArgs Empty where
  connection := "wh"
  dialect := "postgres"
  sql := some "SELECT 1"
  dry_run := true

theorem dry_run_select_gate : WriteGate one_liners no_specs postgres_client dry_run_select := by
  apply (write_gate_iff one_liners no_specs postgres_client dry_run_select ?_ ?_ ?_).mpr
  · intro text statements profile htext _ _ hparse _ hresolve _
    cases htext
    cases hparse
    cases hresolve
    refine .inr (.inr ⟨?_, rfl⟩)
    intro stmt hstmt
    cases List.mem_singleton.mp hstmt
    rfl
  · intro profile hresolve
    cases hresolve
    rfl
  · intro text statements n _ hmax
    cases hmax
  · intro stmt n
    rfl

end EmergentFlow
