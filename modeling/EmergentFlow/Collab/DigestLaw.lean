import EmergentFlow.Collab.Digest
import EmergentFlow.Lib.Admission

/-!
# Collab — DigestLaw

What the digest of all results promises an agent, and when it does (`digest_law_iff`).

The document takes the room of its names and that of its values (`document_len`), and the walk
over the ports is an admission under a count that leaves most of the names out. So the walk
may leave a document that is too large, and the nodes that are then dropped leave no trace;
and the allowance for a port may be more than its names take, by which only the last port can
be refused although there is room (`refused_is_last`).
-/

namespace EmergentFlow.Digest

open Admission

variable {host : Host}

/-! ## Names and values -/

section Ports

variable {α : Type}

/-- The ports of all nodes. -/
def ports_of (nodes : List (String × Dict String α)) : List (String × String × α) :=
  nodes.flatMap fun node => node.2.entries.map fun port => (node.1, port.1, port.2)

/-- The node ids, each with the names of its ports. -/
def names (nodes : List (String × Dict String α)) : List (String × List String) :=
  nodes.map fun node => (node.1, node.2.keys)

theorem mem_ports_of {d : Dict String (Dict String α)} {node_id port_name : String} {a : α} :
    (node_id, port_name, a) ∈ ports_of d.entries ↔
      ∃ ports, d.get? node_id = some ports ∧ ports.get? port_name = some a := by
  simp only [ports_of, List.mem_flatMap, List.mem_map, Prod.exists, Prod.mk.injEq]
  constructor
  · rintro ⟨_, ports, hnode, _, _, hport, rfl, rfl, rfl⟩
    exact ⟨ports, (Dict.mem_entries_iff d).mp hnode, (Dict.mem_entries_iff ports).mp hport⟩
  · rintro ⟨ports, hnode, hport⟩
    exact ⟨node_id, ports, (Dict.mem_entries_iff d).mpr hnode, port_name, a,
      (Dict.mem_entries_iff ports).mpr hport, rfl, rfl, rfl⟩

theorem length_ports_of (nodes : List (String × Dict String α)) :
    (ports_of nodes).length = ((names nodes).map fun node => node.2.length).sum := by
  induction nodes with
  | nil => rfl
  | cons node nodes ih =>
      show (node.2.entries.map _ ++ ports_of nodes).length =
        node.2.keys.length + ((names nodes).map fun node => node.2.length).sum
      rw [List.length_append, ih, List.length_map, Dict.keys, List.length_map]

end Ports

/-- What the names take in a document. -/
def framed (names : List (String × List String)) : Nat :=
  CompactJson.frame (names.map Prod.fst) +
    (names.map fun node => CompactJson.frame node.2).sum

theorem framed_le {α : Type} {nodes : List (String × Dict String α)} {node_id port_name : String}
    {a : α} (h : (node_id, port_name, a) ∈ ports_of nodes) :
    4 * (ports_of nodes).length + node_id.length + port_name.length + 6 ≤ framed (names nodes) := by
  simp only [ports_of, List.mem_flatMap, List.mem_map, Prod.exists, Prod.mk.injEq] at h
  obtain ⟨node_id, ports, hnode, port_name, a, hentry, rfl, rfl, rfl⟩ := h
  have hname : port_name ∈ ports.keys := List.mem_map_of_mem hentry
  have hsome (l : List (String × List String)) : 4 * (l.map fun node => node.2.length).sum ≤
      (l.map fun node => CompactJson.frame node.2).sum := by
    induction l with
    | nil => exact Nat.le_refl _
    | cons node l ih =>
        have := CompactJson.le_frame node.2
        simp only [List.map_cons, List.sum_cons]
        omega
  -- the node with the port and what stands on its two sides
  have hnames : (node_id, ports.keys) ∈ names nodes := List.mem_map_of_mem hnode
  have hids : node_id ∈ (names nodes).map Prod.fst := List.mem_map_of_mem hnames
  have hlength := length_ports_of nodes
  have houter := CompactJson.le_frame_of_mem hids
  have hpositive := List.length_pos_of_mem hids
  have hinner := CompactJson.le_frame_of_mem hname
  obtain ⟨before, after, hsplit⟩ := List.append_of_mem hnames
  have hbefore := hsome before
  have hafter := hsome after
  unfold framed
  rw [hsplit] at hlength ⊢
  rw [hsplit] at houter hpositive
  simp only [List.map_append, List.map_cons, List.sum_append, List.sum_cons] at hlength ⊢ houter
  simp only [List.map_append, List.map_cons] at hpositive
  omega

/-- A document takes the room of its names and that of its values. -/
theorem document_len (digested : Dict String (Dict String Json)) :
    serialized_len host (document digested) =
      framed (names digested.entries) +
        ((ports_of digested.entries).map fun e => serialized_len host e.2.2).sum := by
  -- what a node takes is the frame around its ports and what stands at them
  have hvalues (nodes : List (String × Dict String Json)) :
      (nodes.map fun node => serialized_len host (.obj node.2.entries)).sum =
        ((names nodes).map fun node => CompactJson.frame node.2).sum +
          ((ports_of nodes).map fun e => serialized_len host e.2.2).sum := by
    induction nodes with
    | nil => rfl
    | cons node nodes ih =>
        have hnode : serialized_len host (.obj node.2.entries) =
            CompactJson.frame node.2.keys +
              (node.2.entries.map fun port => serialized_len host port.2).sum := by
          simp only [serialized_len_eq, CompactJson.size_obj]
          rfl
        have hports : ports_of (node :: nodes) =
            (node.2.entries.map fun port => (node.1, port.1, port.2)) ++ ports_of nodes := rfl
        rw [List.map_cons, List.sum_cons, ih, hnode, hports, List.map_append, List.sum_append,
          List.map_map]
        show _ = CompactJson.frame node.2.keys +
          ((names nodes).map fun node => CompactJson.frame node.2).sum + _
        simp only [Function.comp_def]
        omega
  have hdocument : serialized_len host (document digested) =
      CompactJson.frame (digested.entries.map Prod.fst) +
        (digested.entries.map fun node => serialized_len host (.obj node.2.entries)).sum := by
    rw [serialized_len_eq, document, CompactJson.size_obj]
    simp only [Dict.mapValues, List.map_map, Function.comp_def, serialized_len_eq]
  have hids : (names digested.entries).map Prod.fst = digested.entries.map Prod.fst := by
    rw [names, List.map_map]
    rfl
  rw [hdocument, hvalues, framed, hids, Nat.add_assoc]

/-! ## The walk as an admission -/

def cost (port : String × String × Payload host) : Nat := serialized_len host port.2.2.digest

def allowance (port : String × String × Payload host) : Nat := framing port.1 port.2.1

/-- The walk has room for a port. -/
abbrev HasRoom (total_bytes : Nat) (port : String × String × Payload host) : Prop :=
  Room MAX_DIGEST_BYTES cost allowance total_bytes port

/-- What the walk has counted behind these ports. -/
abbrev counted (ports : List (String × String × Payload host)) : Nat :=
  count MAX_DIGEST_BYTES cost allowance 0 ports

/-- What stands at a port. -/
def outcome (port : (String × String × Payload host) × Bool) : String × String × Json :=
  (port.1.1, port.1.2.1, if port.2 then port.1.2.2.digest else MARKER)

theorem two_le_cost (port : String × String × Payload host) : 2 ≤ cost port :=
  port.2.2.two_le_digest

theorem two_mul_length_le (ports : List (String × String × Payload host)) :
    2 * ports.length ≤ (ports.map cost).sum := by
  induction ports with
  | nil => exact Nat.le_refl _
  | cons port ports ih =>
      have := two_le_cost port
      simp only [List.map_cons, List.sum_cons, List.length_cons]
      omega

theorem serialized_len_marker : serialized_len host MARKER = 58 := by
  rw [serialized_len_eq, CompactJson.size, MARKER]
  simp only [CompactJson.print, CompactJson.printMembers]
  decide

/-- The first check refuses nothing that the second does not. -/
theorem digest_ports_cons (node_id port_name : String) (total_bytes : Nat) (payload : Payload host)
    (ports : List (String × Payload host)) :
    digest_ports node_id total_bytes ((port_name, payload) :: ports) =
      if HasRoom total_bytes (node_id, port_name, payload) then
        let rest := digest_ports node_id (total_bytes + cost (node_id, port_name, payload)) ports
        (rest.1, (port_name, payload.digest) :: rest.2)
      else
        let rest := digest_ports node_id total_bytes ports
        (rest.1, (port_name, MARKER) :: rest.2) := by
  have := payload.two_le_digest
  have hroom : HasRoom total_bytes (node_id, port_name, payload) ↔
      total_bytes + serialized_len host payload.digest + framing node_id port_name ≤
        MAX_DIGEST_BYTES := Iff.rfl
  rw [digest_ports]
  by_cases hfirst : MAX_DIGEST_BYTES ≤ total_bytes + framing node_id port_name
  · rw [if_pos hfirst, if_neg (by rw [hroom]; omega)]
  · rw [if_neg hfirst]
    by_cases hsecond : MAX_DIGEST_BYTES <
        total_bytes + serialized_len host payload.digest + framing node_id port_name
    · rw [if_pos hsecond, if_neg (by rw [hroom]; omega)]
    · rw [if_neg hsecond, if_pos (by rw [hroom]; omega)]
      rfl

theorem digest_ports_eq (node_id : String) (total_bytes : Nat)
    (ports : List (String × Payload host)) :
    digest_ports node_id total_bytes ports =
      (count MAX_DIGEST_BYTES cost allowance total_bytes
          (ports.map fun port => (node_id, port.1, port.2)),
        (enter MAX_DIGEST_BYTES cost allowance total_bytes
          (ports.map fun port => (node_id, port.1, port.2))).map fun e => (outcome e).2) := by
  induction ports generalizing total_bytes with
  | nil => rfl
  | cons port ports ih =>
      obtain ⟨port_name, payload⟩ := port
      rw [digest_ports_cons, List.map_cons, count, enter]
      split <;> rw [ih, List.map_cons] <;> rfl

theorem keys_digest_ports (node_id : String) (total_bytes : Nat)
    (ports : List (String × Payload host)) :
    (digest_ports node_id total_bytes ports).2.map Prod.fst = ports.map Prod.fst := by
  have hfst := map_fst_enter MAX_DIGEST_BYTES cost allowance total_bytes
    (ports.map fun port => (node_id, port.1, port.2))
  have hnames := congrArg (List.map fun port => port.2.1) hfst
  rw [List.map_map, List.map_map] at hnames
  rw [digest_ports_eq, List.map_map]
  exact hnames

theorem entries_digest_ports (node_id : String) (total_bytes : Nat)
    (ports : Dict String (Payload host)) :
    (Dict.ofList (digest_ports node_id total_bytes ports.entries).2).entries =
      (digest_ports node_id total_bytes ports.entries).2 := by
  apply Dict.entries_ofList
  rw [keys_digest_ports]
  exact ports.nodup

theorem names_digest_nodes (total_bytes : Nat)
    (nodes : List (String × Dict String (Payload host))) :
    names (digest_nodes total_bytes nodes) = names nodes := by
  induction nodes generalizing total_bytes with
  | nil => rfl
  | cons node nodes ih =>
      obtain ⟨node_id, ports⟩ := node
      have hkeys : (Dict.ofList (digest_ports node_id total_bytes ports.entries).2).keys =
          ports.keys := by
        rw [Dict.keys, entries_digest_ports, keys_digest_ports, Dict.keys]
      show (node_id, Dict.keys _) :: names (digest_nodes _ nodes) = (node_id, ports.keys) :: _
      rw [hkeys, ih]
      rfl

theorem ports_of_digest_nodes (total_bytes : Nat)
    (nodes : List (String × Dict String (Payload host))) :
    ports_of (digest_nodes total_bytes nodes) =
      (enter MAX_DIGEST_BYTES cost allowance total_bytes (ports_of nodes)).map outcome := by
  induction nodes generalizing total_bytes with
  | nil => rfl
  | cons node nodes ih =>
      obtain ⟨node_id, ports⟩ := node
      show ((Dict.ofList (digest_ports node_id total_bytes ports.entries).2).entries.map fun port =>
          (node_id, port.1, port.2)) ++ ports_of (digest_nodes _ nodes) = _
      have hports : ports_of ((node_id, ports) :: nodes) =
          (ports.entries.map fun port => (node_id, port.1, port.2)) ++ ports_of nodes := rfl
      rw [hports, enter_append, List.map_append, entries_digest_ports, ih, digest_ports_eq,
        List.map_map]
      congr 1
      apply List.map_congr_left
      intro e he
      -- the ports of one node carry its id
      obtain ⟨port, -, heq⟩ := List.mem_map.mp (fst_mem_of_mem_enter he)
      show (node_id, (outcome e).2) = ((outcome e).1, (outcome e).2)
      rw [outcome, ← heq]

/-- The document the walk leaves, before a node is dropped. -/
def walked (results : Dict String (Dict String (Payload host))) :
    Dict String (Dict String Json) :=
  Dict.ofList (digest_nodes 0 results.entries)

/-- The document of all digests. -/
def digests (results : Dict String (Dict String (Payload host))) :
    Dict String (Dict String Json) :=
  results.mapValues fun _ ports => ports.mapValues fun _ payload => payload.digest

theorem map_fst_names {α : Type} (nodes : List (String × Dict String α)) :
    (names nodes).map Prod.fst = nodes.map Prod.fst := by
  rw [names, List.map_map]
  rfl

variable (results : Dict String (Dict String (Payload host)))

theorem entries_walked : (walked results).entries = digest_nodes 0 results.entries := by
  apply Dict.entries_ofList
  rw [← map_fst_names, names_digest_nodes, map_fst_names]
  exact results.nodup

theorem names_walked : names (walked results).entries = names results.entries := by
  rw [entries_walked, names_digest_nodes]

theorem keys_walked : (walked results).keys = results.keys := by
  rw [Dict.keys, Dict.keys, ← map_fst_names, names_walked, map_fst_names]

theorem ports_of_walked : ports_of (walked results).entries =
    (enter MAX_DIGEST_BYTES cost allowance 0 (ports_of results.entries)).map outcome := by
  rw [entries_walked, ports_of_digest_nodes]

theorem walked_len : serialized_len host (document (walked results)) =
    framed (names results.entries) +
      paid cost 58 (enter MAX_DIGEST_BYTES cost allowance 0 (ports_of results.entries)) := by
  rw [document_len, names_walked, ports_of_walked, List.map_map, paid]
  have houtcome : ((fun e => serialized_len host e.2.2) ∘ outcome) =
      fun e : (String × String × Payload host) × Bool => if e.2 then cost e.1 else 58 := by
    funext e
    simp only [Function.comp_apply, outcome]
    split
    · rfl
    · exact serialized_len_marker
  rw [houtcome]

theorem digests_len : serialized_len host (document (digests results)) =
    framed (names results.entries) + ((ports_of results.entries).map cost).sum := by
  have hnames : names (digests results).entries = names results.entries := by
    simp only [names, digests, Dict.mapValues, List.map_map, Function.comp_def, Dict.keys]
  have hports : ports_of (digests results).entries =
      (ports_of results.entries).map fun port => (port.1, port.2.1, port.2.2.digest) := by
    simp only [ports_of, digests, Dict.mapValues, List.flatMap_map, List.map_flatMap, List.map_map,
      Function.comp_def]
  rw [document_len, hnames, hports, List.map_map]
  rfl

/-- The digest with a value in place of what stands at a port. -/
def restored (digested : Dict String (Dict String Json)) (node_id port_name : String)
    (value : Json) : Dict String (Dict String Json) :=
  digested.set node_id (((digested.get? node_id).getD Dict.empty).set port_name value)

variable (host) in
theorem restored_len {digested : Dict String (Dict String Json)} {node_id port_name : String}
    {ports : Dict String Json} {old : Json} (value : Json)
    (hnode : digested.get? node_id = some ports) (hport : ports.get? port_name = some old) :
    serialized_len host (document (restored digested node_id port_name value)) +
        serialized_len host old =
      serialized_len host (document digested) + serialized_len host value := by
  let objects := digested.mapValues fun _ ports => Json.obj ports.entries
  have hobjects : document (restored digested node_id port_name value) =
      .obj (objects.set node_id (.obj (ports.set port_name value).entries)).entries := by
    rw [document, restored, hnode, Option.getD_some, Dict.mapValues_set]
  have hget : objects.get? node_id = some (.obj ports.entries) := by
    rw [Dict.get?_mapValues, hnode, Option.map_some]
  have houter := CompactJson.size_set host.float_repr
    (.obj (ports.set port_name value).entries) hget
  have hinner := CompactJson.size_set host.float_repr value hport
  have hdocument : document digested = .obj objects.entries := rfl
  rw [hobjects, hdocument]
  simp only [serialized_len_eq]
  omega

/-! ## Dropping -/

theorem document_empty_len : encoded_len host (document Dict.empty) ≤ MAX_DIGEST_BYTES := by
  rw [encoded_len_eq, document_len]
  show framed [] + 0 ≤ MAX_DIGEST_BYTES
  decide

theorem drop_trailing_len (digested : Dict String (Dict String Json)) :
    encoded_len host (document (drop_trailing host digested)) ≤ MAX_DIGEST_BYTES := by
  fun_induction drop_trailing host digested with
  | case1 digested hnone =>
      have hempty : digested = Dict.empty :=
        Dict.ext_entries (List.map_eq_nil_iff.mp (List.getLast?_eq_none_iff.mp hnone))
      exact hempty ▸ document_empty_len
  | case2 digested node_id hlast hlarge ih => exact ih
  | case3 digested node_id hlast hfits => omega

theorem get?_of_drop_trailing {digested : Dict String (Dict String Json)} {node_id : String}
    {ports : Dict String Json} (h : (drop_trailing host digested).get? node_id = some ports) :
    digested.get? node_id = some ports := by
  fun_induction drop_trailing host digested with
  | case1 digested hnone => exact h
  | case2 digested last hlast hlarge ih =>
      have hget := ih h
      rw [Dict.get?_erase] at hget
      split at hget
      · cases hget
      · exact hget
  | case3 digested last hlast hfits => exact h

theorem drop_trailing_of_fits {digested : Dict String (Dict String Json)}
    (h : encoded_len host (document digested) ≤ MAX_DIGEST_BYTES) :
    drop_trailing host digested = digested := by
  unfold drop_trailing
  split
  · rfl
  · rw [if_neg (by omega)]

theorem drop_trailing_of_large {digested : Dict String (Dict String Json)} {node_id : String}
    (hlast : digested.keys.getLast? = some node_id)
    (hlarge : MAX_DIGEST_BYTES < encoded_len host (document digested)) :
    drop_trailing host digested = drop_trailing host (digested.erase node_id) := by
  rw [drop_trailing]
  split
  · rename_i hnone
    rw [hlast] at hnone
    cases hnone
  · rename_i last hsome
    rw [hlast] at hsome
    cases hsome
    rw [if_pos hlarge]

/-- A document that is too large loses a node. -/
theorem fits_of_nodes {digested : Dict String (Dict String Json)}
    (h : ∀ node_id ∈ digested.keys, node_id ∈ (drop_trailing host digested).keys) :
    encoded_len host (document digested) ≤ MAX_DIGEST_BYTES := by
  by_contra hfits
  have hlarge := Nat.lt_of_not_le hfits
  cases hlast : digested.keys.getLast? with
  | none =>
      have hempty : digested = Dict.empty :=
        Dict.ext_entries (List.map_eq_nil_iff.mp (List.getLast?_eq_none_iff.mp hlast))
      exact hfits (hempty ▸ document_empty_len)
  | some node_id =>
      have hmem := h node_id (List.mem_of_getLast? hlast)
      rw [drop_trailing_of_large hlast hlarge, Dict.mem_keys_iff] at hmem
      obtain ⟨ports, hports⟩ := hmem
      have hgone := get?_of_drop_trailing hports
      rw [Dict.get?_erase_self] at hgone
      cases hgone

/-! ## A refused port -/

section Refused

variable {results}
variable {before after : List (String × String × Payload host)}
variable {port : String × String × Payload host}

/-- What the names take, seen from one port. -/
theorem framed_split (h : ports_of results.entries = before ++ port :: after) :
    4 * (before.length + after.length) + port.1.length + port.2.1.length + 10 ≤
      framed (names results.entries) := by
  have hmem : (port.1, port.2.1, port.2.2) ∈ ports_of results.entries := by simp [h]
  have hle := framed_le hmem
  rw [h, List.length_append, List.length_cons] at hle
  omega

theorem sum_cost_split (h : ports_of results.entries = before ++ port :: after) :
    ((ports_of results.entries).map cost).sum =
      (before.map cost).sum + cost port + (after.map cost).sum := by
  rw [h, List.map_append, List.sum_append, List.map_cons, List.sum_cons, Nat.add_assoc]

/-- The names of a port are less than its allowance by too little for another port. -/
theorem refused_is_last {used values rest : Nat}
    (h : ports_of results.entries = before ++ port :: after)
    (hroom : ¬ HasRoom used port) (hused : used ≤ values)
    (hrest : 2 * after.length ≤ rest)
    (hfits : framed (names results.entries) + (values + cost port + rest) ≤ MAX_DIGEST_BYTES) :
    after = [] ∧ values < used + 6 := by
  have hframed := framed_split h
  have hfull : MAX_DIGEST_BYTES < used + cost port + (port.1.length + port.2.1.length + 16) :=
    Nat.lt_of_not_le hroom
  have hafter : after.length = 0 := by omega
  exact ⟨List.length_eq_zero_iff.mp hafter, by omega⟩

theorem refused_stands (h : ports_of results.entries = before ++ port :: after)
    (hroom : ¬ HasRoom (counted before) port) :
    ∃ digested, (walked results).get? port.1 = some digested ∧
      digested.get? port.2.1 = some MARKER := by
  apply mem_ports_of.mp
  rw [ports_of_walked, h, enter_append, enter, if_neg hroom]
  simp [outcome]

theorem admitted_stands (h : ports_of results.entries = before ++ port :: after)
    (hroom : HasRoom (counted before) port) :
    ∃ digested, (walked results).get? port.1 = some digested ∧
      digested.get? port.2.1 = some port.2.2.digest := by
  apply mem_ports_of.mp
  rw [ports_of_walked, h, enter_append, enter, if_pos hroom]
  simp [outcome]

/-- The document with the digest of a refused port. -/
theorem refused_len (h : ports_of results.entries = before ++ port :: after)
    (hroom : ¬ HasRoom (counted before) port) :
    serialized_len host (document (restored (walked results) port.1 port.2.1 port.2.2.digest)) =
      framed (names results.entries) +
        (paid cost 58 (enter MAX_DIGEST_BYTES cost allowance 0 before) + cost port +
          paid cost 58 (enter MAX_DIGEST_BYTES cost allowance (counted before) after)) := by
  obtain ⟨digested, hnode, hport⟩ := refused_stands h hroom
  have hlen := restored_len host port.2.2.digest hnode hport
  have hmarker : paid cost 58 [(port, false)] = 58 := rfl
  rw [walked_len, h, enter_append, enter, if_neg hroom, paid_append, ← List.singleton_append,
    paid_append, hmarker, serialized_len_marker] at hlen
  have hcost : cost port = serialized_len host port.2.2.digest := rfl
  have hcounted : counted before = count MAX_DIGEST_BYTES cost allowance 0 before := rfl
  rw [hcost, hcounted]
  omega

end Refused

/-! ## The law -/

/-- What the digest promises, with the target of a truncation. A node that is left out can be
flagged only by an entry of its own: nothing else of the digest names it. -/
structure DigestLaw (target_bytes : Nat) : Prop where
  bounded : encoded_len host (document (digest_results host results)) ≤ MAX_DIGEST_BYTES
  truncates : ∀ value,
    serialized_len host (truncate_json host value target_bytes) ≤ target_bytes
  ports : ∀ node_id digested, (digest_results host results).get? node_id = some digested →
    ∃ ports, results.get? node_id = some ports ∧ digested.keys = ports.keys ∧
      ∀ port_name payload, ports.get? port_name = some payload →
        digested.get? port_name = some payload.digest ∨ digested.get? port_name = some MARKER
  needed : ∀ node_id ports port_name payload,
    results.get? node_id = some ports → ports.get? port_name = some payload →
      (∃ digested, (digest_results host results).get? node_id = some digested ∧
        digested.get? port_name = some payload.digest) ∨
      MAX_DIGEST_BYTES < encoded_len host
        (document (restored (digest_results host results) node_id port_name payload.digest))
  nodes_flagged : ∀ node_id ∈ results.keys, node_id ∈ (digest_results host results).keys
  values_flagged : ∀ payload : Payload host, Reports payload.json payload.digest

/-- When the promise holds: a truncation has room for `null`; what the walk leaves is not too
large; and where all digests fit, the estimate has room for the last port. -/
structure DigestFits (target_bytes : Nat) : Prop where
  target : 4 ≤ target_bytes
  walk : encoded_len host (document (walked results)) ≤ MAX_DIGEST_BYTES
  last : encoded_len host (document (digests results)) ≤ MAX_DIGEST_BYTES →
    ∀ port ∈ (ports_of results.entries).getLast?, port.2.2.digest = MARKER ∨
      ((ports_of results.entries).map cost).sum + allowance port ≤ MAX_DIGEST_BYTES

variable {results}

theorem ports_of_digest {node_id : String} {digested : Dict String Json}
    (h : (digest_results host results).get? node_id = some digested) :
    ∃ ports, results.get? node_id = some ports ∧ digested.keys = ports.keys ∧
      ∀ port_name payload, ports.get? port_name = some payload →
        digested.get? port_name = some payload.digest ∨
          digested.get? port_name = some MARKER := by
  have hnode : (walked results).get? node_id = some digested := get?_of_drop_trailing h
  have hnames : (node_id, digested.keys) ∈ names results.entries := by
    rw [← names_walked]
    exact List.mem_map_of_mem ((Dict.mem_entries_iff _).mpr hnode)
  obtain ⟨⟨node_id, ports⟩, hentry, heq⟩ := List.mem_map.mp hnames
  obtain ⟨rfl, hkeys⟩ := Prod.mk.inj heq
  have hports := (Dict.mem_entries_iff _).mp hentry
  refine ⟨ports, hports, hkeys.symm, ?_⟩
  intro port_name payload hpayload
  have hmem := mem_ports_of.mpr ⟨ports, hports, hpayload⟩
  obtain ⟨before, after, hsplit⟩ := List.append_of_mem hmem
  by_cases hroom : HasRoom (counted before) (node_id, port_name, payload)
  · obtain ⟨found, hfound, hvalue⟩ := admitted_stands hsplit hroom
    cases hnode.symm.trans hfound
    exact .inl hvalue
  · obtain ⟨found, hfound, hvalue⟩ := refused_stands hsplit hroom
    cases hnode.symm.trans hfound
    exact .inr hvalue

/-- A refused port whose digest would fit is the last, and all before it are let in. -/
theorem refused_alone {before after : List (String × String × Payload host)}
    {port : String × String × Payload host}
    (h : ports_of results.entries = before ++ port :: after)
    (hroom : ¬ HasRoom (counted before) port)
    (hfits : serialized_len host
      (document (restored (walked results) port.1 port.2.1 port.2.2.digest)) ≤ MAX_DIGEST_BYTES) :
    after = [] ∧ All MAX_DIGEST_BYTES cost allowance 0 before := by
  rw [refused_len h hroom] at hfits
  have hrest : 2 * _ ≤
      paid cost 58 (enter MAX_DIGEST_BYTES cost allowance (counted before) after) :=
    le_paid cost (by decide) fun e _ => two_le_cost e.1
  rw [length_enter] at hrest
  have hcount : counted before ≤ 0 + _ := count_le_paid 0 58 before
  rw [Nat.zero_add] at hcount
  obtain ⟨hafter, hvalues⟩ := refused_is_last h hroom hcount hrest hfits
  refine ⟨hafter, ?_⟩
  rcases all_or_count_le 0 58 before with hall | hmarker
  · exact hall
  · -- a marker among them would take more than the names leave
    have hmarker : counted before + 58 ≤ 0 + _ := hmarker
    omega

theorem DigestFits.needed {target_bytes : Nat} (h : DigestFits results target_bytes)
    {node_id port_name : String} {ports : Dict String (Payload host)} {payload : Payload host}
    (hports : results.get? node_id = some ports) (hpayload : ports.get? port_name = some payload) :
    (∃ digested, (walked results).get? node_id = some digested ∧
      digested.get? port_name = some payload.digest) ∨
    MAX_DIGEST_BYTES <
      encoded_len host (document (restored (walked results) node_id port_name payload.digest)) := by
  obtain ⟨before, after, hsplit⟩ :=
    List.append_of_mem (mem_ports_of.mpr ⟨ports, hports, hpayload⟩)
  by_cases hroom : HasRoom (counted before) (node_id, port_name, payload)
  · exact .inl (admitted_stands hsplit hroom)
  by_cases hlarge : MAX_DIGEST_BYTES <
      encoded_len host (document (restored (walked results) node_id port_name payload.digest))
  · exact .inr hlarge
  -- with this digest all of them stand, and they fit
  have hfits := Nat.le_of_not_lt hlarge
  rw [encoded_len_eq] at hfits
  obtain ⟨rfl, hall⟩ := refused_alone hsplit hroom hfits
  have hsum := sum_cost_split hsplit
  rw [List.map_nil, List.sum_nil, Nat.add_zero] at hsum
  have hwhole : encoded_len host (document (digests results)) ≤ MAX_DIGEST_BYTES := by
    rw [refused_len hsplit hroom, hall.paid] at hfits
    rw [encoded_len_eq, digests_len, hsum]
    exact hfits
  have hlast : (node_id, port_name, payload) ∈ (ports_of results.entries).getLast? := by
    rw [hsplit, List.getLast?_append]
    rfl
  rcases h.last hwhole _ hlast with hmarker | hestimate
  · obtain ⟨digested, hnode, hport⟩ := refused_stands hsplit hroom
    exact .inl ⟨digested, hnode, hmarker ▸ hport⟩
  · have hcount : counted before = 0 + _ := hall.count
    rw [hsum] at hestimate
    have hnone : MAX_DIGEST_BYTES < _ := Nat.lt_of_not_le hroom
    omega

/-- Where the walk lets all ports in, the estimate has room for the last one. -/
theorem estimate_of_all {port : String × String × Payload host}
    (hall : All MAX_DIGEST_BYTES cost allowance 0 (ports_of results.entries))
    (hport : port ∈ (ports_of results.entries).getLast?) :
    ((ports_of results.entries).map cost).sum + allowance port ≤ MAX_DIGEST_BYTES := by
  obtain ⟨before, hsplit⟩ := List.getLast?_eq_some_iff.mp hport
  have hsum := sum_cost_split hsplit
  rw [hsplit, all_append, all_cons] at hall
  have hroom : 0 + (before.map cost).sum + cost port + allowance port ≤ MAX_DIGEST_BYTES :=
    hall.2.1
  rw [List.map_nil, List.sum_nil] at hsum
  omega

/-- Where all digests fit, the first refused port is the last port. -/
theorem first_refused_is_last {before after : List (String × String × Payload host)}
    {port : String × String × Payload host}
    (hwhole : encoded_len host (document (digests results)) ≤ MAX_DIGEST_BYTES)
    (hsplit : ports_of results.entries = before ++ port :: after)
    (hroom : ¬ HasRoom (0 + (before.map cost).sum) port) : after = [] := by
  rw [encoded_len_eq, digests_len, sum_cost_split hsplit] at hwhole
  exact (refused_is_last hsplit hroom (Nat.le_of_eq (Nat.zero_add _)) (two_mul_length_le after)
    hwhole).1

theorem last_of_needed
    (hneeded : ∀ node_id ports port_name payload,
      results.get? node_id = some ports → ports.get? port_name = some payload →
        (∃ digested, (walked results).get? node_id = some digested ∧
          digested.get? port_name = some payload.digest) ∨
        MAX_DIGEST_BYTES < encoded_len host
          (document (restored (walked results) node_id port_name payload.digest)))
    (hwhole : encoded_len host (document (digests results)) ≤ MAX_DIGEST_BYTES) :
    ∀ port ∈ (ports_of results.entries).getLast?, port.2.2.digest = MARKER ∨
      ((ports_of results.entries).map cost).sum + allowance port ≤ MAX_DIGEST_BYTES := by
  rintro ⟨node_id, port_name, payload⟩ hport
  rcases @admits_all_or_refuses _ MAX_DIGEST_BYTES cost allowance 0 (ports_of results.entries) with
    hall | ⟨before, refused, after, hsplit, hbefore, hroom⟩
  · exact .inr (estimate_of_all hall hport)
  · -- all digests fit, so the estimate can refuse no port but the last
    obtain rfl := first_refused_is_last hwhole hsplit hroom
    rw [hsplit, List.getLast?_append] at hport
    cases hport
    obtain ⟨ports, hports, hpayload⟩ := mem_ports_of.mp
      (hsplit ▸ List.mem_append_right _ List.mem_cons_self :
        (node_id, port_name, payload) ∈ ports_of results.entries)
    rw [← hbefore.count] at hroom
    rcases hneeded node_id ports port_name payload hports hpayload with
      ⟨digested, hnode, hdigest⟩ | hlarge
    · -- the marker stands there, so it is the digest
      obtain ⟨found, hfound, hmarker⟩ := refused_stands hsplit hroom
      cases hnode.symm.trans hfound
      exact .inl (Option.some.inj (hdigest.symm.trans hmarker))
    · -- with its digest the document is that of all digests
      rw [encoded_len_eq, refused_len hsplit hroom, hbefore.paid, enter] at hlarge
      rw [encoded_len_eq, digests_len, sum_cost_split hsplit] at hwhole
      simp only [paid, List.map_nil, List.sum_nil] at hlarge hwhole
      omega

/-- The digest keeps its promise just when the estimates of the walk are good enough. -/
theorem digest_law_iff (results : Dict String (Dict String (Payload host))) (target_bytes : Nat) :
    DigestLaw results target_bytes ↔ DigestFits results target_bytes := by
  constructor
  · intro h
    have hwalk : encoded_len host (document (walked results)) ≤ MAX_DIGEST_BYTES := by
      apply fits_of_nodes
      intro node_id hnode
      rw [keys_walked] at hnode
      exact h.nodes_flagged node_id hnode
    have hsame : digest_results host results = walked results := drop_trailing_of_fits hwalk
    have hneeded := h.needed
    rw [hsame] at hneeded
    refine ⟨?_, hwalk, last_of_needed hneeded⟩
    -- `null` is not cut down
    have hnull := h.truncates .null
    rwa [truncate_json_null, serialized_len_null] at hnull
  · intro h
    have hsame : digest_results host results = walked results := drop_trailing_of_fits h.walk
    refine ⟨drop_trailing_len _, truncate_json_le host h.target, fun _ _ => ports_of_digest, ?_, ?_,
      Payload.reports⟩
    · intro node_id ports port_name payload hports hpayload
      rw [hsame]
      exact h.needed hports hpayload
    · intro node_id hnode
      rw [hsame, keys_walked]
      exact hnode

/-! ## Many small results -/

def plain : Host where
  float_repr _ := "0.0"
  float_repr_ascii _ := CompactJson.ascii_of_all (by decide)
  sha1 _ := ""
  str _ := ""

def zero : Payload plain := ⟨.obj [("kind", .str "scalar"), ("value", .int 0)], rfl⟩

/-- Two thousand nodes, each with a zero at its only port. -/
def crowd : Dict String (Dict String (Payload plain)) :=
  Dict.ofList ((List.range 2000).map fun i => (i.repr, Dict.ofList [("out", zero)]))

theorem ports_of_crowd :
    ports_of crowd.entries = (List.range 2000).map fun i => (i.repr, "out", zero) := by
  have hentries : crowd.entries =
      (List.range 2000).map fun i => (i.repr, Dict.ofList [("out", zero)]) := by
    apply Dict.entries_ofList
    rw [List.map_map]
    exact List.Nodup.map (fun m n h => Decimal.repr_inj.mp h) List.nodup_range
  have hflat (l : List Nat) :
      ports_of (l.map fun i => (i.repr, Dict.ofList [("out", zero)])) =
        l.map fun i => (i.repr, "out", zero) := by
    induction l with
    | nil => rfl
    | cons i l ih =>
        show (i.repr, "out", zero) :: ports_of (l.map _) = _
        rw [ih, List.map_cons]
  rw [hentries, hflat]

-- each digest has 27 bytes, so no document has room for all of them
theorem crowd_breaks_law : ¬ DigestLaw crowd MAX_JSON_CHARS := by
  intro h
  have hwalk : encoded_len plain (document (walked crowd)) ≤ MAX_DIGEST_BYTES := by
    apply fits_of_nodes
    intro node_id hnode
    rw [keys_walked] at hnode
    exact h.nodes_flagged node_id hnode
  have hzero : serialized_len plain zero.digest = 27 := by
    rw [serialized_len_eq]
    decide
  have hlength : (ports_of crowd.entries).length = 2000 := by
    rw [ports_of_crowd, List.length_map, List.length_range]
  have hpaid : 27 * (enter MAX_DIGEST_BYTES cost allowance 0 (ports_of crowd.entries)).length ≤
      paid cost 58 (enter MAX_DIGEST_BYTES cost allowance 0 (ports_of crowd.entries)) := by
    apply le_paid cost (by decide)
    intro e he
    have hmem := fst_mem_of_mem_enter he
    rw [ports_of_crowd] at hmem
    obtain ⟨i, -, hi⟩ := List.mem_map.mp hmem
    show 27 ≤ serialized_len plain e.1.2.2.digest
    rw [← hi, hzero]
  rw [length_enter, hlength] at hpaid
  rw [encoded_len_eq, walked_len] at hwalk
  have : MAX_DIGEST_BYTES = 51200 := rfl
  omega

end EmergentFlow.Digest
