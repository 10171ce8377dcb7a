import Mathlib.Logic.Relation
import EmergentFlow.Server.FailureContainment

/-!
# Server — FailureIndependence

What the failure of a node leaves alone. Two runs from the same stores, of which
the second has one more node raise: they meet the same nodes, and what the second
has results for, the first has the same results for (`Ledger`). No node that does
not descend from the culprit fares differently (`failure_containment`).

The runs share stores, and a node that raises writes nothing to them, so the
second may hit or read what was evicted in the first. Hence the condition on the
first run (`CarefulVisit`) speaks of all that was ever filed under a node's key,
and of all stores that the writes of the run can lead to.
-/

namespace EmergentFlow

variable {Sub V C ε : Type} {sv : Server Sub V C ε} {g : Graph Sub} {w : WiringMap}

/-! ## Careful visits -/

/-- The server on which the node raises. -/
def Server.failing (sv : Server Sub V C ε) (culprit : String) (e : ε) : Server Sub V C ε :=
  sv.behaving fun node inputs client =>
    if node.id = culprit then .error e else sv.call node inputs client

/-- What the cache held at the start, or a node of the run has filed since. -/
def Held (cached : String → Option (Dict String V)) (st : WalkState sv) (key : String)
    (outputs : Dict String V) : Prop :=
  cached key = some outputs ∨ ∃ id, st.node_hashes.get? id = some (some key) ∧
    st.node_results.get? id = some outputs

/-- The artifact stores that reads, and writes of these results, lead to. -/
inductive Stores (sv : Server Sub V C ε) (g : Graph Sub)
    (results : String → Option (Dict String V)) (start : sv.artifacts.State) :
    sv.artifacts.State → Prop
  | start : Stores sv g results start start
  | get {s : sv.artifacts.State} (before : Stores sv g results start s) (key : String) :
      Stores sv g results start (sv.artifacts.get s key).2
  | put {s : sv.artifacts.State} (before : Stores sv g results start s) {id : String}
      {node : Node Sub} {outputs : Dict String V} (found : g.nodes.get? id = some node)
      (result : results id = some outputs) : Stores sv g results start
        (sv.artifacts.put s (safe_key sv.hashing.sha256 id) outputs (id, node.label.getD ""))

/-- The condition on one visit, in the state before it, of a run that started with
these stores. -/
structure CarefulVisit (g : Graph Sub) (w : WiringMap) (order : List String)
    (cache : sv.cache.State) (artifacts : sv.artifacts.State) (id : String) (node : Node Sub)
    (st : WalkState sv) : Prop where
  safe : SafeVisit g w order (sv.artifact artifacts) id node st
  /-- What was filed under the node's key is what running it returns. -/
  sound : ∀ bound key outputs, st.binding g w node = .ok bound →
    sv.node_key node bound.upstream_hashes = some key →
    Held (sv.cache.view cache) st key outputs → sv.run_node node bound.inputs = .ok outputs
  /-- The results so far push no artifact out that the node reads. -/
  room : ∀ s, Stores sv g st.node_results.get? artifacts s → ∀ src ∈ g.node_sources id node,
    src.node_id ∉ order → sv.artifact s src.node_id = sv.artifact artifacts src.node_id

/-- Every visit of the walk is careful. -/
def CarefulWalk (g : Graph Sub) (w : WiringMap) (order : List String) (cache : sv.cache.State)
    (artifacts : sv.artifacts.State) (total : Nat) : Nat → List String → WalkState sv → Prop
  | _, [], _ => True
  | index, id :: rest, st =>
      (∀ node, g.nodes.get? id = some node →
        CarefulVisit g w order cache artifacts id node st) ∧
        CarefulWalk g w order cache artifacts total (index + 1) rest
          (visit g w total index id st).state

theorem CarefulWalk.safe {order : List String} {cache : sv.cache.State}
    {artifacts : sv.artifacts.State} {total : Nat} (rest : List String) {index : Nat}
    {st : WalkState sv} (h : CarefulWalk g w order cache artifacts total index rest st) :
    SafeWalk g w order (sv.artifact artifacts) total index rest st := by
  induction rest generalizing index st with
  | nil => trivial
  | cons id rest ih => exact ⟨fun node hnode => (h.1 node hnode).safe, ih h.2⟩

/-! ## The node that raises -/

theorem Server.failing_run_node {culprit : String} {e : ε} {node : Node Sub}
    (h : node.id ≠ culprit) (inputs : Dict String V) :
    (sv.failing culprit e).run_node node inputs = sv.run_node node inputs := by
  simp only [Server.run_node, Server.execute_node, definition_execute, Server.failing,
    Server.behaving, if_neg h]

/-- The culprit raises, and the `try` catches it. -/
theorem Server.failing_culprit {culprit : String} {e : ε} (he : sv.is_exception e = true)
    {node : Node Sub} (h : node.id = culprit) (inputs : Dict String V) :
    ∃ failure, (sv.failing culprit e).run_node node inputs = .error failure ∧
      sv.catches failure = true := by
  have hexecute : ∀ client, ∃ failure,
      definition_execute (sv.failing culprit e).call node inputs client = .error failure ∧
        sv.catches failure = true := by
    intro client
    unfold definition_execute
    split
    · exact ⟨_, rfl, rfl⟩
    · exact ⟨.raised e, by simp [Server.failing, Server.behaving, h, Except.mapError], he⟩
  unfold Server.run_node
  cases hreg : (sv.failing culprit e).runtime.registry node.type with
  | none => exact ⟨_, rfl, rfl⟩
  | some definition =>
      simp only [Checks.require, bind, Except.bind, Server.execute_node]
      split
      · exact hexecute _
      · exact hexecute _
      · exact ⟨_, rfl, rfl⟩

/-! ## The invariant of a run beside another -/

section Ledger

variable {order done rest : List String} {cache : sv.cache.State}
  {artifacts : sv.artifacts.State} {id : String} {node : Node Sub} {st₀ : WalkState sv}
  {call : Behaviour Sub V C ε} {st : WalkState (sv.behaving call)} {total index : Nat}
  {t₀ : Trace sv} {t : Trace (sv.behaving call)}

/-- A run beside the run in state `st₀`, from the same stores: what it has results
for, that one has the same results for. -/
structure Ledger (g : Graph Sub) (cache : sv.cache.State) (artifacts : sv.artifacts.State)
    (done : List String) (st₀ : WalkState sv) {call : Behaviour Sub V C ε}
    (st : WalkState (sv.behaving call)) : Prop where
  tables : Tables done st
  unhashed : ∀ id, id ∉ done → st.node_hashes.get? id = none
  results : ∀ id outputs, st.node_results.get? id = some outputs →
    st₀.node_results.get? id = some outputs ∧ st.node_hashes.get? id = st₀.node_hashes.get? id
  cache : ∀ key outputs, sv.cache.view st.cache key = some outputs →
    Held (sv.cache.view cache) st₀ key outputs
  artifacts : Stores sv g st₀.node_results.get? artifacts st.artifacts

theorem Ledger.init (g : Graph Sub) (cache : sv.cache.State) (artifacts : sv.artifacts.State)
    (call : Behaviour Sub V C ε) : Ledger g cache artifacts [] ({ cache, artifacts } : WalkState sv)
      ({ cache, artifacts } : WalkState (sv.behaving call)) where
  tables := ⟨fun id => by simp, fun id => by simp⟩
  unhashed id _ := Dict.get?_empty id
  results id outputs h := by simp at h
  cache key outputs h := .inl h
  artifacts := .start

theorem Stores.mono {results results' : String → Option (Dict String V)}
    {s : sv.artifacts.State} (h : Stores sv g results artifacts s)
    (hresults : ∀ id outputs, results id = some outputs → results' id = some outputs) :
    Stores sv g results' artifacts s := by
  induction h with
  | start => exact .start
  | get before key ih => exact .get ih key
  | put before found result ih => exact .put ih found (hresults _ _ result)

theorem Stores.reads {results : String → Option (Dict String V)} {s s' : sv.artifacts.State}
    (h : Stores sv g results artifacts s) (hreads : sv.artifacts.Reads s s') :
    Stores sv g results artifacts s' := by
  induction hreads with
  | refl => exact h
  | get key before ih => exact .get ih key

/-- A visit of the other run beside a visit of the first. -/
theorem Ledger.step (h₀ : @Ledger _ _ _ _ sv g cache artifacts done st₀ sv.call st₀)
    (h : Ledger g cache artifacts done st₀ st) (hid : id ∉ done)
    (hnode : g.nodes.get? id = some node) (ht₀ : Visited g w total index id node st₀ t₀)
    (ht : Visited g w total index id node st t) (hstay : t.escaped = none)
    (hresults : ∀ outputs, t.state.node_results.get? id = some outputs →
      t₀.state.node_results.get? id = some outputs ∧
        t.state.node_hashes.get? id = t₀.state.node_hashes.get? id) :
    Ledger g cache artifacts (done ++ [id]) t₀.state t.state := by
  have hfresh : st₀.node_results.get? id = none := h₀.tables.fresh hid
  -- nothing that was recorded in the first run is lost
  have hkept : ∀ other outputs, st₀.node_results.get? other = some outputs →
      t₀.state.node_results.get? other = some outputs ∧
        t₀.state.node_hashes.get? other = st₀.node_hashes.get? other := by
    intro other outputs hother
    have hne : other ≠ id := by
      rintro rfl
      rw [hfresh] at hother
      cases hother
    exact ⟨(ht₀.frame hne).2.1.trans hother, (ht₀.frame hne).2.2⟩
  have hheld : ∀ key outputs, Held (sv.cache.view cache) st₀ key outputs →
      Held (sv.cache.view cache) t₀.state key outputs := by
    rintro key outputs (hcached | ⟨other, hhash, hother⟩)
    · exact .inl hcached
    · exact .inr ⟨other, (hkept _ _ hother).2.trans hhash, (hkept _ _ hother).1⟩
  have hread : Stores sv g t₀.state.node_results.get? artifacts (st.read_artifacts g w node) :=
    (h.artifacts.mono fun other outputs hother => (hkept _ _ hother).1).reads
      (st.bind_answers g w node).2
  refine ⟨ht.tables hstay hid h.tables, ?_, ?_, ?_, ?_⟩
  · intro other hother
    rw [List.mem_append, List.mem_singleton, not_or] at hother
    exact (ht.frame hother.2).2.2.trans (h.unhashed other hother.1)
  · intro other outputs hother
    by_cases hne : other = id
    · subst hne
      exact hresults outputs hother
    · obtain ⟨-, hsame, hhash⟩ := ht.frame hne
      rw [hsame] at hother
      obtain ⟨hfound, heq⟩ := h.results other outputs hother
      rw [hhash, heq]
      exact ⟨(hkept _ _ hfound).1, (hkept _ _ hfound).2.symm⟩
  · intro key outputs hfound
    cases ht with
    | escaped bind | interrupted bind interrupted => cases hstay
    | skipped bind => exact hheld _ _ (h.cache _ _ hfound)
    | ran bind ran =>
        cases ran with
        | failed miss run caught kept | hit hash found kept =>
            exact hheld _ _ (h.cache _ _ (congrFun kept key ▸ hfound))
        | fresh miss run stored =>
            rcases stored key outputs hfound with ⟨hkey, rfl⟩ | hbefore
            · obtain ⟨hfiled, hhash⟩ := hresults outputs (Dict.get?_set_self _ _ _)
              refine .inr ⟨id, hhash.symm.trans ?_, hfiled⟩
              rw [← hkey]
              exact Dict.get?_set_self _ _ _
            · exact hheld _ _ (h.cache _ _ hbefore)
  · cases ht with
    | escaped bind | interrupted bind interrupted => cases hstay
    | skipped bind => exact hread
    | ran bind ran =>
        cases ran with
        | failed miss run caught kept => exact hread
        | hit hash found kept | fresh miss run stored =>
            exact .put hread hnode (hresults _ (Dict.get?_set_self _ _ _)).1

variable (hs : Scope g w order) (hsplit : order = done ++ id :: rest)
  (h₀ : @Ledger _ _ _ _ sv g cache artifacts done st₀ sv.call st₀)
  (h : Ledger g cache artifacts done st₀ st) (hcareful : CarefulVisit g w order cache artifacts id
    node st₀)
include hs hsplit h₀ h hcareful

omit hs hsplit h₀ in
/-- The artifacts that a visit reads are those of the start. -/
theorem Ledger.artifact_values :
    AllValues g order st.node_results.get? (sv.artifact artifacts) id node ↔
      AllValues g order st.node_results.get? st.artifact id node := by
  refine forall₂_congr fun src hsrc => ?_
  unfold HasValue
  by_cases hin : src.node_id ∈ order
  · simp only [if_pos hin]
  · have hroom : st.artifact src.node_id = sv.artifact artifacts src.node_id :=
      hcareful.room _ h.artifacts src hsrc hin
    simp only [if_neg hin, hroom]

/-- A source has its value in the other run as well, or none. -/
theorem Ledger.value {src : PortRef} (hsrc : src ∈ g.node_sources id node) :
    st.value g src = .ok none ∨ st₀.value g src = st.value g src ∧
      st₀.node_hashes.get? src.node_id = st.node_hashes.get? src.node_id := by
  by_cases hin : src.node_id ∈ order
  · have hdone := hs.producer_done hsplit (Graph.feeds_of_node_sources hsrc) hin
    cases hresults : st.node_results.get? src.node_id with
    | none => exact .inl (h.tables.value_of_no_results hdone hresults)
    | some outputs =>
        right
        obtain ⟨hfound, hhash⟩ := h.results _ _ hresults
        have hok := (h.tables.results src.node_id).mpr ⟨outputs, hresults⟩
        have hok₀ := (h₀.tables.results src.node_id).mpr ⟨outputs, hfound⟩
        have hsame : SameOutcome src.node_id st₀ st := by
          refine ⟨?_, hfound.trans hresults.symm⟩
          rcases hok with hok | hok <;> rcases hok₀ with hok₀ | hok₀ <;> rw [hok, hok₀] <;> rfl
        refine ⟨(hsame.value fun hnone => ?_).1, hhash.symm⟩
        rw [hnone] at hok₀
        simp at hok₀
  · right
    have hnot : src.node_id ∉ done := fun hmem => hin (hsplit ▸ List.mem_append_left _ hmem)
    have hsame : SameOutcome src.node_id st₀ st := by
      refine ⟨?_, (h₀.tables.fresh hnot).trans (h.tables.fresh hnot).symm⟩
      rw [h.tables.unvisited hnot, h₀.tables.unvisited hnot]
    refine ⟨(hsame.value fun _ => ?_).1, (h₀.unhashed _ hnot).trans (h.unhashed _ hnot).symm⟩
    exact (hcareful.room _ h₀.artifacts src hsrc hin).trans
      (hcareful.room _ h.artifacts src hsrc hin).symm

/-- What is bound in the other run is bound in the first; no lookup raises. -/
theorem Ledger.binding (hnode : g.nodes.get? id = some node) :
    (∀ failure, st.binding g w node ≠ .error (.raise failure)) ∧
      ∀ bound, st.binding g w node = .ok bound → st₀.binding g w node = .ok bound := by
  have hwired := hs.wired id node hnode
  have hsame : ∀ src ∈ g.node_sources id node, ∀ v, st.value g src = .ok (some v) →
      st₀.value g src = .ok (some v) := by
    intro src hsrc v hv
    rcases Ledger.value hs hsplit h₀ h hcareful hsrc with hnone | ⟨heq, -⟩
    · rw [hnone] at hv
      cases hv
    · exact heq.trans hv
  constructor
  · intro failure hbind
    obtain ⟨pre, src, post, hsources, hpre, hstop⟩ := bind_ports_eq_error hwired hbind
    have hsplits : g.node_sources id node = pre ++ src :: post := hsources
    have hsrc : src ∈ g.node_sources id node := by simp [hsplits]
    have hraise : st.value g src = .error (.raise failure) := by simpa using hstop
    rcases Ledger.value hs hsplit h₀ h hcareful hsrc with hnone | ⟨heq, -⟩
    · rw [hnone] at hraise
      cases hraise
    · -- the first run would have met the same missing port
      have htables₀ : Tables done st₀ := h₀.tables
      have hraise₀ : st₀.value g src = .error (.raise failure) := heq.trans hraise
      rcases htables₀.value_cases hs hsplit hsrc with ⟨v, hv, -⟩ | ⟨hv, -⟩ |
        ⟨failure, outputs, port_name, -, houtputs, hname, hget, -⟩
      · rw [hraise₀] at hv
        cases hv
      · rw [hraise₀] at hv
        cases hv
      · have hhas : ∀ s ∈ pre, HasValue g order st₀.node_results.get? st₀.artifact s := by
          intro s hpres
          obtain ⟨v, hv⟩ := hpre s hpres
          have hmem : s ∈ g.node_sources id node := by simp [hsplits, hpres]
          exact (htables₀.hasValue_iff hs hsplit hmem).mpr ⟨v, hsame s hmem v hv⟩
        obtain ⟨v, hv⟩ := hcareful.safe.ports pre src post hsplits hhas outputs port_name houtputs
          hname
        rw [hget] at hv
        cases hv
  · intro bound hbind
    obtain ⟨v, hv⟩ := exists_values sv.runtime (value_of_bind_ports hwired hbind)
    have hbound : st.binding g w node = _ := bind_ports_of_values hwired hv {}
    have hv₀ : ∀ port ∈ node.in_ports, ∀ src ∈ g.port_sources id port,
        st₀.value g src = .ok (some (v src)) := fun port hport src hsrc =>
      hsame src (List.mem_flatMap.mpr ⟨port, hport, hsrc⟩) _ (hv port hport src hsrc)
    have hbound₀ : st₀.binding g w node = _ := bind_ports_of_values hwired hv₀ {}
    rw [← hbind, hbound, hbound₀]
    congr 2
    congr 1
    refine bound_hashes_congr fun port hport src hsrc => ?_
    rcases Ledger.value hs hsplit h₀ h hcareful (List.mem_flatMap.mpr ⟨port, hport, hsrc⟩) with
      hnone | ⟨-, heq⟩
    · rw [hv port hport src hsrc] at hnone
      cases hnone
    · rw [heq]

end Ledger

/-! ## The culprit's descendants and the others -/

section Failing

variable {order done rest : List String} {cache : sv.cache.State}
  {artifacts : sv.artifacts.State} {id : String} {node : Node Sub} {culprit : String} {e : ε}
  {st₀ : WalkState sv} {st : WalkState (sv.failing culprit e)} {total index : Nat} {t₀ : Trace sv}
  {t : Trace (sv.failing culprit e)}

/-- In a careful visit the node has what running it returns. -/
theorem CarefulVisit.records (hcareful : CarefulVisit g w order cache artifacts id node st₀)
    (hheld : ∀ key outputs, sv.cache.view st₀.cache key = some outputs →
      Held (sv.cache.view cache) st₀ key outputs)
    (ht₀ : Visited g w total index id node st₀ t₀) {bound : Bound V}
    (hbind : st₀.binding g w node = .ok bound) {outputs : Dict String V}
    (hrun : sv.run_node node bound.inputs = .ok outputs) :
    t₀.state.node_results.get? id = some outputs ∧
      t₀.state.node_hashes.get? id = some (sv.node_key node bound.upstream_hashes) := by
  cases ht₀ with
  | escaped bind | skipped bind =>
      rw [bind] at hbind
      cases hbind
  | interrupted bind interrupted =>
      obtain rfl := Except.ok.inj (bind.symm.trans hbind)
      have herror := interrupted.run.symm.trans hrun
      cases herror
  | ran bind ran =>
      obtain rfl := Except.ok.inj (bind.symm.trans hbind)
      cases ran with
      | failed miss run caught kept =>
          have herror := run.symm.trans hrun
          cases herror
      | hit hash found kept =>
          have hsound := hcareful.sound _ _ _ bind hash (hheld _ _ found)
          obtain rfl := Except.ok.inj (hsound.symm.trans hrun)
          exact ⟨Dict.get?_set_self _ _ _, (Dict.get?_set_self _ _ _).trans (by rw [hash])⟩
      | fresh miss run stored =>
          obtain rfl := Except.ok.inj (run.symm.trans hrun)
          exact ⟨Dict.get?_set_self _ _ _, Dict.get?_set_self _ _ _⟩

variable (hs : Scope g w order) (hsplit : order = done ++ id :: rest)
  (h₀ : @Ledger _ _ _ _ sv g cache artifacts done st₀ sv.call st₀)
  (h : Ledger g cache artifacts done st₀ st)
  (hcareful : CarefulVisit g w order cache artifacts id node st₀)
  (hnode : g.nodes.get? id = some node) (ht : Visited g w total index id node st t)
include hs hsplit h₀ h hcareful hnode ht

/-- A visit of the failing run goes on. -/
theorem Ledger.stays (he : sv.is_exception e = true) : t.escaped = none := by
  obtain ⟨hraise, hbound⟩ := Ledger.binding hs hsplit h₀ h hcareful hnode
  cases ht with
  | escaped bind => exact absurd bind (hraise _)
  | skipped bind | ran bind ran => rfl
  | @interrupted bound failure after bind interrupted =>
      by_cases hculprit : node.id = culprit
      · obtain ⟨failure', hrun, hcaught⟩ := Server.failing_culprit he hculprit bound.inputs
        obtain rfl := Except.error.inj (interrupted.run.symm.trans hrun)
        exact absurd (hcaught.symm.trans interrupted.uncaught) nofun
      · have hrun : sv.run_node node bound.inputs = .error failure :=
          (Server.failing_run_node hculprit bound.inputs).symm.trans interrupted.run
        -- what the cache holds is no failure, and other failures are caught
        have hmiss : ∀ key, sv.node_key node bound.upstream_hashes = some key →
            sv.cache.view st₀.cache key = none := by
          intro key hkey
          cases hfound : sv.cache.view st₀.cache key with
          | none => rfl
          | some outputs =>
              have hsound := hcareful.sound _ _ _ (hbound _ bind) hkey (h₀.cache _ _ hfound)
              rw [hrun] at hsound
              cases hsound
        have hcaught := hcareful.safe.caught _ _ (hbound _ bind) hmiss hrun
        exact absurd (hcaught.symm.trans interrupted.uncaught) nofun

/-- What a visit of the failing run records, the visit of the first does too. -/
theorem Ledger.recorded (he : sv.is_exception e = true)
    (ht₀ : Visited g w total index id node st₀ t₀) {outputs : Dict String V}
    (hresults : t.state.node_results.get? id = some outputs) :
    t₀.state.node_results.get? id = some outputs ∧
      t.state.node_hashes.get? id = t₀.state.node_hashes.get? id := by
  obtain ⟨-, hbound⟩ := Ledger.binding hs hsplit h₀ h hcareful hnode
  have hfresh : st.node_results.get? id = none := h.tables.fresh (hs.fresh hsplit)
  cases ht with
  | escaped bind | skipped bind | interrupted bind interrupted =>
      have hnone := hfresh.symm.trans hresults
      cases hnone
  | @ran bound event after bind ran =>
      cases ran with
      | failed miss run caught kept =>
          have hnone := hfresh.symm.trans hresults
          cases hnone
      | hit hash found kept =>
          obtain rfl := Option.some.inj ((Dict.get?_set_self _ _ _).symm.trans hresults)
          have hrun := hcareful.sound _ _ _ (hbound _ bind) hash (h.cache _ _ found)
          obtain ⟨hsame, hhash⟩ := hcareful.records h₀.cache ht₀ (hbound _ bind) hrun
          exact ⟨hsame, (Dict.get?_set_self _ _ _).trans (hash ▸ hhash.symm)⟩
      | fresh miss run stored =>
          obtain rfl := Option.some.inj ((Dict.get?_set_self _ _ _).symm.trans hresults)
          have hne : node.id ≠ culprit := by
            intro hculprit
            obtain ⟨failure, herror, -⟩ := Server.failing_culprit he hculprit bound.inputs
            rw [run] at herror
            cases herror
          have hrun := (Server.failing_run_node hne bound.inputs).symm.trans run
          obtain ⟨hsame, hhash⟩ := hcareful.records h₀.cache ht₀ (hbound _ bind) hrun
          exact ⟨hsame, (Dict.get?_set_self _ _ _).trans hhash.symm⟩

/-- A node whose producers fare alike fares alike. -/
theorem Ledger.agree (ht₀ : Visited g w total index id node st₀ t₀)
    (hculprit : node.id ≠ culprit)
    (hsame : ∀ a, g.Feeds a id ∨ a = id → SameOutcome a st₀ st) :
    t₀.events.map NodeEvent.plain = t.events.map NodeEvent.plain ∧
      SameOutcome id t₀.state t.state := by
  obtain ⟨-, hbound⟩ := Ledger.binding hs hsplit h₀ h hcareful hnode
  have hruntime : sv.runtime = (sv.failing culprit e).runtime := rfl
  have hbind : Bound.inputs <$> st₀.binding g w node = Bound.inputs <$> st.binding g w node := by
    apply binding_agree (hs.wired id node hnode) hruntime
    intro port hport src hsrc
    have hfeeds := Graph.feeds_of_mem_sources hsrc
    have hmem : src ∈ g.node_sources id node := List.mem_flatMap.mpr ⟨port, hport, hsrc⟩
    apply (hsame src.node_id (.inl hfeeds)).value
    intro hunseen
    have hout : src.node_id ∉ order := by
      intro hin
      obtain ⟨status, hstatus⟩ := (h₀.tables.visited _).mpr (hs.producer_done hsplit hfeeds hin)
      rw [show st₀.node_status.get? src.node_id = none from hunseen] at hstatus
      cases hstatus
    exact (hcareful.room _ h₀.artifacts src hmem hout).trans
      (hcareful.room _ h.artifacts src hmem hout).symm
  have hcache₀ : Transparent g w node st₀ := fun bound key outputs hbind hkey hfound =>
    hcareful.sound _ _ _ hbind hkey (h₀.cache _ _ hfound)
  have hcache : Transparent g w node st := fun bound key outputs hbind hkey hfound =>
    (Server.failing_run_node hculprit _).trans
      (hcareful.sound _ _ _ (hbound _ hbind) hkey (h.cache _ _ hfound))
  obtain ⟨hevents, -, hkeep⟩ := ht₀.agree ht hbind
    (fun inputs => (Server.failing_run_node hculprit inputs).symm) rfl hcache₀ hcache
  exact ⟨hevents, hkeep (hsame id (.inr rfl))⟩

end Failing

/-! ## The run in which a node raises -/

/-- The events about one node. -/
def Trace.about (t : Trace sv) (id : String) : List (NodeEvent V ε) :=
  t.events.filter (·.node_id = id)

theorem Visited.about_eq {id : String} {node : Node Sub} {st : WalkState sv} {total index : Nat}
    {t : Trace sv} (ht : Visited g w total index id node st t) (m : String) :
    t.events.filter (·.node_id = m) = if id = m then t.events else [] := by
  split
  · rename_i heq
    exact List.filter_eq_self.mpr fun event he => by simpa [heq] using ht.about event he
  · rename_i hne
    rw [List.filter_eq_nil_iff]
    intro event he
    simpa [ht.about event he] using hne

section Run

variable {order : List String} {cache : sv.cache.State} {artifacts : sv.artifacts.State}
  {culprit : String} {e : ε}

/-- Beside a careful walk, the one in which the culprit raises is safe, and says the
same of every node that does not descend from it. -/
theorem Ledger.walk (he : sv.is_exception e = true) (hs : Scope g w order) {total : Nat}
    (rest : List String) {done : List String} {st₀ : WalkState sv}
    {st : WalkState (sv.failing culprit e)} {index : Nat} (hsplit : order = done ++ rest)
    (h₀ : @Ledger _ _ _ _ sv g cache artifacts done st₀ sv.call st₀)
    (h : Ledger g cache artifacts done st₀ st)
    (hcareful : CarefulWalk g w order cache artifacts total index rest st₀)
    (hsame : ∀ id, ¬ Relation.ReflTransGen g.Feeds culprit id → SameOutcome id st₀ st) :
    SafeWalk g w order (sv.artifact artifacts) total index rest st ∧
      ∀ m, ¬ Relation.ReflTransGen g.Feeds culprit m →
        ((EmergentFlow.walk g w total index rest st₀).about m).map NodeEvent.plain =
          ((EmergentFlow.walk g w total index rest st).about m).map NodeEvent.plain := by
  induction rest generalizing done st₀ st index with
  | nil => exact ⟨trivial, fun m _ => rfl⟩
  | cons id rest ih =>
      obtain ⟨node, hnode⟩ := hs.node id (hsplit ▸ by simp)
      obtain ⟨hvisits, hrest⟩ := hcareful
      have hvisit := hvisits node hnode
      have hid := hs.fresh hsplit
      have ht₀ := visit_cases w st₀ hnode total index
      have ht := visit_cases w st hnode total index
      have htables₀ : Tables done st₀ := h₀.tables
      have hstay₀ := (ht₀.stays_iff htables₀ hs hsplit hnode).1.mpr
        ⟨hvisit.safe.ports, hvisit.safe.caught⟩
      have hstay := Ledger.stays hs hsplit h₀ h hvisit hnode ht he
      obtain ⟨hports, hcaught⟩ := (ht.stays_iff h.tables hs hsplit hnode).1.mp hstay
      have hnext₀ : @Ledger _ _ _ _ sv g cache artifacts (done ++ [id])
          (visit g w total index id st₀).state sv.call (visit g w total index id st₀).state :=
        h₀.step h₀ hid hnode ht₀ ht₀ hstay₀ fun outputs houtputs => ⟨houtputs, rfl⟩
      have hnext := h₀.step h hid hnode ht₀ ht hstay fun outputs houtputs =>
        Ledger.recorded hs hsplit h₀ h hvisit hnode ht he ht₀ houtputs
      have hagree : ¬ Relation.ReflTransGen g.Feeds culprit id →
          (visit g w total index id st₀).events.map NodeEvent.plain =
              (visit g w total index id st).events.map NodeEvent.plain ∧
            SameOutcome id (visit g w total index id st₀).state
              (visit g w total index id st).state := by
        intro hnot
        have hculprit : node.id ≠ culprit := by
          rintro rfl
          exact hnot (hs.node_id _ _ hnode ▸ .refl)
        refine Ledger.agree hs hsplit h₀ h hvisit hnode ht ht₀ hculprit fun a ha => hsame a ?_
        rcases ha with ha | rfl
        · exact fun hreach => hnot (hreach.tail ha)
        · exact hnot
      have hsame' : ∀ other, ¬ Relation.ReflTransGen g.Feeds culprit other →
          SameOutcome other (visit g w total index id st₀).state
            (visit g w total index id st).state := by
        intro other hnot
        by_cases hne : other = id
        · subst hne
          exact (hagree hnot).2
        · exact (hsame other hnot).frame ht₀ ht hne
      obtain ⟨hsafe, habout⟩ := ih (by simp [hsplit]) hnext₀ hnext hrest hsame'
      refine ⟨⟨fun node' hnode' => ?_, hsafe⟩, fun m hm => ?_⟩
      · obtain rfl := Option.some.inj (hnode.symm.trans hnode')
        exact ⟨hports, hcaught, h.artifact_values hvisit⟩
      · have htail := habout m hm
        rw [EmergentFlow.walk, EmergentFlow.walk]
        simp only [hstay₀, hstay, Trace.about, List.filter_append, List.map_append] at htail ⊢
        rw [htail, ht₀.about_eq, ht.about_eq]
        congr 1
        split
        · rename_i heq
          subst heq
          exact (hagree hm).1
        · rfl

end Run

/-! ## The law of a run -/

/-- All visits of the run are careful. -/
def CarefulStream (sv : Server Sub V C ε) (g : Graph Sub) (only : Option (List String))
    (cache : sv.cache.State) (artifacts : sv.artifacts.State) : Prop :=
  ∀ order w, sv.prepare g only = .ok (order, w) →
    CarefulWalk g w order cache artifacts order.length 1 order
      ({ cache, artifacts } : WalkState sv)

/-- What the failure of a node leaves of a run, which started with these stores. -/
structure Contained (sv : Server Sub V C ε) (g : Graph Sub) (only : Option (List String))
    (cache : sv.cache.State) (artifacts : sv.artifacts.State) (t : Trace sv) : Prop where
  walked : Walked sv g only artifacts t
  /-- Were a node to raise an `Exception`, every node would still be given its due, and
  no node that does not descend from it would fare differently. -/
  independent : ∀ culprit e, sv.is_exception e = true →
    ∀ t', (sv.failing culprit e).stream g only cache artifacts = .ok t' →
      Walked (sv.failing culprit e) g only artifacts t' ∧
        ∀ m, ¬ Relation.ReflTransGen g.Feeds culprit m →
          (t.about m).map NodeEvent.plain = (t'.about m).map NodeEvent.plain

/-- A run gives every node its due exactly when its visits are safe, and a run of
careful visits contains every failure. -/
theorem failure_containment (hv : g.Valid) {only : Option (List String)} {cache : sv.cache.State}
    {artifacts : sv.artifacts.State} {t : Trace sv}
    (hrun : sv.stream g only cache artifacts = .ok t) :
    (Walked sv g only artifacts t ↔ SafeStream sv g only cache artifacts) ∧
      (CarefulStream sv g only cache artifacts → Contained sv g only cache artifacts t) := by
  refine ⟨walked_iff hv hrun, fun hcareful => ⟨?_, ?_⟩⟩
  · exact (walked_iff hv hrun).mpr fun order w hprepare =>
      (hcareful order w hprepare).safe
  · intro culprit e he t' hrun'
    obtain ⟨⟨order, w⟩, hprepare, ht⟩ := Checks.bind_eq_ok.mp hrun
    obtain ⟨⟨order', w'⟩, hprepare', ht'⟩ := Checks.bind_eq_ok.mp hrun'
    have hsame : (sv.failing culprit e).prepare g only = sv.prepare g only := rfl
    obtain ⟨rfl, rfl⟩ := Prod.mk.inj (Except.ok.inj (hprepare'.symm.trans (hsame.trans hprepare)))
    simp only [pure, Except.pure, Except.ok.injEq] at ht ht'
    obtain ⟨hsafe, habout⟩ := Ledger.walk he (Server.prepare_scope hv hprepare).1 order' rfl
      (Ledger.init g cache artifacts sv.call) (Ledger.init g cache artifacts _)
      (hcareful _ _ hprepare) fun id _ => ⟨rfl, rfl⟩
    refine ⟨(walked_iff hv hrun').mpr fun order'' w'' hprepare'' => ?_, fun m hm => ?_⟩
    · obtain ⟨rfl, rfl⟩ := Prod.mk.inj (Except.ok.inj (hprepare'.symm.trans hprepare''))
      exact hsafe
    · rw [← ht, ← ht']
      exact habout m hm

/-! ## A run that is careful, and two that are not -/

/-- `load` has two OUT ports, of which `describe` reads the one with this id. -/
def load_and_describe (port_id : String) : Graph Empty where
  nodes := Dict.ofList [
    ("load", { id := "load", type := "data.load_csv", ports := [
      { id := "f", name := "frame", direction := .OUT },
      { id := "r", name := "rows", direction := .OUT }] }),
    ("describe", { id := "describe", type := "stats.describe", ports := [
      { id := "i", name := "frame", direction := .IN }] })]
  edges := Dict.ofList [
    ("e", { id := "e", source := ⟨"load", port_id⟩, target := ⟨"describe", "i"⟩ })]

/-- `code` runs what the user wrote on the frame. -/
def load_and_code : Graph Empty where
  nodes := Dict.ofList [
    ("load", { id := "load", type := "data.load_csv", ports := [
      { id := "f", name := "frame", direction := .OUT }] }),
    ("code", { id := "code", type := "script.custom_code", ports := [
      { id := "v", name := "value", direction := .IN },
      { id := "r", name := "result", direction := .OUT }] })]
  edges := Dict.ofList [
    ("e", { id := "e", source := ⟨"load", "f"⟩, target := ⟨"code", "v"⟩ })]

/-- A server without stores, whose nodes deliver a `frame` only. What a node raises
is given by the name of its class. -/
def frame_server : Server Empty Nat Unit String where
  runtime := {
    registry := fun type => some { type, cacheable := type ≠ "data.load_csv" }
    none_value := 0
    list_value := List.sum }
  gate _ := true
  call _ _ _ := .ok (Dict.ofList [("frame", 7)])
  is_exception e := e ≠ "SystemExit" && e ≠ "KeyboardInterrupt"
  gateway := ()
  warehouse := ()
  hashing := { dumps := fun _ => "", sha256 := id, version := "" }
  cache := .null _ _ _
  artifacts := .null _ _ _

/-- `rows` is a port of the node that its results lack: the generator ends with a
`KeyError` before `describe` has any event. It ends as well when `code` calls
`sys.exit`. -/
theorem missing_port_ends_stream : (load_and_describe "r").validate_structure = .ok () ∧
    (∃ t, frame_server.stream (load_and_describe "r") none () () = .ok t ∧
      ¬ Contained frame_server (load_and_describe "r") none () () t) ∧
    load_and_code.validate_structure = .ok () ∧
    ∃ t, (frame_server.failing "code" "SystemExit").stream load_and_code none () () = .ok t ∧
      ¬ Contained (frame_server.failing "code" "SystemExit") load_and_code none () () t := by
  refine ⟨rfl, ⟨_, rfl, fun h => ?_⟩, rfl, _, rfl, fun h => ?_⟩
  · have hcomplete := h.walked.complete
    cases hcomplete
  · have hcomplete := h.walked.complete
    cases hcomplete

/-- Reading `frame` instead, the run is careful, and contained. -/
theorem frame_run_contained : ∃ t, frame_server.stream (load_and_describe "f") none () () = .ok t ∧
    Contained frame_server (load_and_describe "f") none () () t := by
  refine ⟨_, rfl, (failure_containment (Graph.validate_structure_eq_ok.mp rfl) rfl).2 ?_⟩
  intro order w hprepare
  cases hprepare
  refine ⟨?_, ?_, trivial⟩
  · intro node hnode
    cases hnode
    refine ⟨⟨?_, ?_, Iff.rfl⟩, ?_, fun s _ src _ _ => rfl⟩
    · intro pre src post hsources
      exact absurd hsources.symm (List.append_ne_nil_of_right_ne_nil _ (List.cons_ne_nil _ _))
    · intro bound e hbind hmiss herror
      cases herror
    · intro bound key outputs hbind hkey
      cases hbind
      cases hkey
  · intro node hnode
    cases hnode
    refine ⟨⟨?_, ?_, Iff.rfl⟩, ?_, fun s _ src _ _ => rfl⟩
    · intro pre src post hsources _ outputs port_name houtputs hname
      have hsrc : src ∈ [(⟨"load", "f"⟩ : PortRef)] := by
        rw [show [(⟨"load", "f"⟩ : PortRef)] = pre ++ src :: post from hsources]
        simp
      cases List.mem_singleton.mp hsrc
      cases houtputs
      cases hname
      exact ⟨7, rfl⟩
    · intro bound e hbind hmiss herror
      cases herror
    · intro bound key outputs hbind hkey
      -- what is loaded has no hash, so the summary has none
      cases hbind
      cases hkey

end EmergentFlow
