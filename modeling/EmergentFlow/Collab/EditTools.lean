import EmergentFlow.Ir.Mutation

/-!
# Collab — EditTools

The graph-editing tools of the MCP server that read the session's graph
(`collab/mcp.py`): `connect_ports`, `delete_node`, `add_result_card` and
`set_result_card`. Each computes the content of a mutation from the graph
before it reads the version the mutation is based on.

A block of a result card is JSON data of the agent. Generated ids are given
by a function on the naturals.
-/

namespace EmergentFlow

variable {Sub : Type}

/-! ## Errors -/

/-- What is wrong with a block of a result card. -/
inductive BlockError where
  | not_an_object (type_name : String)
  | markdown_text
  | requires_node_id
  | requires_port_name
  | unknown_node_id (node_id : String)
  | not_an_out_port (port_name node_id : String)
  | unknown_kind (kind : ParamValue)

/-- What a tool raises before it submits anything. -/
inductive ToolError where
  | key_error (node_id : String)
  | no_port (node_id type port_name : String) (available : List String)
  | block (index : Nat) (e : BlockError)
  | unknown_card (node_id session_id : String)
  | not_a_result_card (node_id type : String)

/-! ## Ports -/

/-- `graph.nodes[node_id]`. -/
def Graph.node (g : Graph Sub) (node_id : String) : Except ToolError (Node Sub) :=
  Checks.require (g.nodes.get? node_id) (.key_error node_id)

/-- `_find_port`: a port of this name, first of this direction. -/
def find_port (node : Node Sub) (port_name : String) (direction : Option Direction) :
    Except ToolError Port :=
  let preferred := direction.bind fun d =>
    node.ports.find? fun p => p.name = port_name && p.direction = d
  Checks.require (preferred.or (node.ports.find? (·.name = port_name)))
    (.no_port node.id node.type port_name ((node.ports.map (·.name)).mergeSort (· ≤ ·)))

/-! ## Result cards -/

/-- A block as it is stored on the card. -/
inductive StoredBlock where
  | markdown (text : String)
  | result (source caption : String)
  deriving DecidableEq, Repr

def ParamValue.type_name : ParamValue → String
  | .none => "NoneType"
  | .bool _ => "bool"
  | .int _ => "int"
  | .float _ => "float"
  | .str _ => "str"
  | .artifact_ref .. => "ArtifactRef"
  | .sequence _ => "list"
  | .mapping _ => "dict"

/-- `str(value or "")`, where `str` is the language's on values that are no
strings. -/
def ParamValue.str_or_empty (str : ParamValue → String) : ParamValue → String
  | .none | .bool false | .sequence [] | .mapping [] => ""
  | .str s => s
  | .int i => if i = 0 then "" else str (.int i)
  | .float x => if x = 0 then "" else str (.float x)
  | value => str value

/-- One block of the card, and the OUT port it refers to. -/
def normalize_block (str : ParamValue → String) (g : Graph Sub) (i : Nat) (block : ParamValue) :
    Except ToolError (StoredBlock × Option (String × String)) := do
  match block with
  | .mapping items =>
      let fields := Dict.ofList items
      match (fields.get? "kind").getD .none with
      | .str "markdown" =>
          match fields.get? "text" with
          | some (.str text) => return (.markdown text, none)
          | _ => .error (.block i .markdown_text)
      | .str "result" =>
          match fields.get? "node_id", fields.get? "port_name" with
          | some (.str node_id), some (.str port_name) =>
              Checks.guard (node_id ≠ "") (.block i .requires_node_id)
              Checks.guard (port_name ≠ "") (.block i .requires_port_name)
              let node ← Checks.require (g.nodes.get? node_id)
                (.block i (.unknown_node_id node_id))
              let port ← find_port node port_name (some .OUT)
              Checks.guard (port.direction = .OUT) (.block i (.not_an_out_port port_name node_id))
              return (.result (node_id ++ ":" ++ port_name)
                (((fields.get? "caption").getD .none).str_or_empty str), some (node_id, port_name))
          | some (.str node_id), _ =>
              Checks.guard (node_id ≠ "") (.block i .requires_node_id)
              .error (.block i .requires_port_name)
          | _, _ => .error (.block i .requires_node_id)
      | kind => .error (.block i (.unknown_kind kind))
  | value => .error (.block i (.not_an_object value.type_name))

/-- The loop of `_normalize_result_card_blocks` from block `i` on. -/
def normalize_blocks_loop (str : ParamValue → String) (g : Graph Sub) :
    Nat → List ParamValue → List StoredBlock → List (String × String) →
      Except ToolError (List StoredBlock × List (String × String))
  | _, [], stored, pairs => .ok (stored, pairs)
  | i, block :: blocks, stored, pairs => do
      let (block, pair) ← normalize_block str g i block
      let fresh := pair.toList.filter (· ∉ pairs)
      normalize_blocks_loop str g (i + 1) blocks (stored ++ [block]) (pairs ++ fresh)

/-- `_normalize_result_card_blocks`. -/
def normalize_result_card_blocks (str : ParamValue → String) (g : Graph Sub)
    (blocks : List ParamValue) : Except ToolError (List StoredBlock × List (String × String)) :=
  normalize_blocks_loop str g 0 blocks [] []

/-- Four hexadecimal digits. -/
def hex4 (n : Nat) : String :=
  String.ofList [(n / 4096 % 16).digitChar, (n / 256 % 16).digitChar, (n / 16 % 16).digitChar,
    (n % 16).digitChar]

/-- One character inside a string of `json.dumps`, which writes ASCII. -/
def json_char (c : Char) : String :=
  match c.toNat with
  | 34 => "\\\""
  | 92 => "\\\\"
  | 10 => "\\n"
  | 13 => "\\r"
  | 9 => "\\t"
  | 12 => "\\f"
  | 8 => "\\b"
  | n =>
      if 32 ≤ n ∧ n ≤ 126 then c.toString
      else if n < 65536 then "\\u" ++ hex4 n
      -- a surrogate pair
      else "\\u" ++ hex4 (55296 + (n - 65536) / 1024) ++ "\\u" ++ hex4 (56320 + (n - 65536) % 1024)

def json_string (s : String) : String :=
  "\"" ++ String.join (s.toList.map json_char) ++ "\""

def json_object (items : List (String × String)) : String :=
  "\x7b" ++ String.intercalate ", " (items.map fun e => json_string e.1 ++ ": " ++ json_string e.2) ++
    "\x7d"

/-- `json.dumps(stored_blocks)`. -/
def dumps_blocks (blocks : List StoredBlock) : String :=
  "[" ++ String.intercalate ", " (blocks.map fun
    | .markdown text => json_object [("kind", "markdown"), ("text", text)]
    | .result source caption =>
        json_object [("kind", "result"), ("source", source), ("caption", caption)]) ++ "]"

/-- A fresh `reports.result_card` node. -/
def result_card (node_id port_id title blocks_json : String) : Node Sub where
  id := node_id
  type := "reports.result_card"
  label := some "Result Card"
  ports := [{ id := port_id, name := "results", direction := .IN, cardinality := .MANY
              label := some "Results" }]
  params := [
    { name := "title", type_token := "str", value := .str title, default := .str "Results" },
    { name := "blocks_json", type_token := "str", value := .str blocks_json, default := .str "[]" },
    { name := "width", type_token := "int", value := .int 480, default := .int 480 }]

/-- The edges into the card, with ids from `first` on. -/
def card_edges (g : Graph Sub) (ids : Nat → String) (first : Nat) (pairs : List (String × String))
    (card_id port_id : String) : Except ToolError (List Edge) :=
  pairs.zipIdx.mapM fun ((source_id, port_name), k) => do
    let node ← g.node source_id
    let port ← find_port node port_name (some .OUT)
    return { id := ids (first + k), source := ⟨source_id, port.id⟩, target := ⟨card_id, port_id⟩ }

/-- The node and port names already wired into the card. -/
def wired (g : Graph Sub) (card_id : String) : List (String × String) :=
  (g.edges.values.filter (·.target.node_id = card_id)).flatMap fun edge =>
    match g.nodes.get? edge.source.node_id with
    | none => []
    | some node =>
        (node.ports.filter (·.id = edge.source.port_id)).map fun port => (node.id, port.name)

/-! ## The tools -/

/-- A tool that edits the graph it has read. -/
inductive EditTool where
  | connect_ports (source_node_id source_port_name target_node_id target_port_name : String)
  | delete_node (node_id : String)
  | add_result_card (title : String) (blocks : List ParamValue)
  | set_result_card (card_node_id : String) (blocks : List ParamValue) (title : Option String)

/-- A call of a tool, with the ids it generates. -/
structure EditRequest where
  tool : EditTool
  session_id : String
  author : String := "agent"
  reason : String := ""
  ids : Nat → String

/-- `reason or fallback`. -/
def EditRequest.reason_or (r : EditRequest) (fallback : String) : String :=
  if r.reason = "" then fallback else r.reason

/-- The mutation a call computes from the graph it has read, still waiting
for the version it is based on. -/
def EditRequest.mutation (str : ParamValue → String) (r : EditRequest) (g : Graph Sub) :
    Except ToolError (Int → GraphMutation Sub) :=
  match r.tool with
  | .connect_ports source_id source_name target_id target_name => do
      let source ← g.node source_id
      let target ← g.node target_id
      let source_port ← find_port source source_name (some .OUT)
      let target_port ← find_port target target_name (some .IN)
      let edge : Edge := {
        id := r.ids 0, source := ⟨source_id, source_port.id⟩, target := ⟨target_id, target_port.id⟩ }
      return fun version =>
        { base_version := version, add_edges := [edge], description := r.reason, author := r.author }
  | .delete_node node_id =>
      let edge_ids := (g.edges.entries.filter fun e =>
        e.2.source.node_id = node_id || e.2.target.node_id = node_id).map (·.1)
      .ok fun version =>
        { base_version := version, remove_nodes := [node_id], remove_edges := edge_ids
          description := r.reason, author := r.author }
  | .add_result_card title blocks => do
      let (stored, pairs) ← normalize_result_card_blocks str g blocks
      let card : Node Sub := result_card (r.ids 0) (r.ids 1) title (dumps_blocks stored)
      let in_port ← find_port card "results" (some .IN)
      let edges ← card_edges g r.ids 2 pairs card.id in_port.id
      return fun version =>
        { base_version := version, add_nodes := [card], add_edges := edges
          description := r.reason_or ("Added result card: " ++ title), author := r.author }
  | .set_result_card card_id blocks title => do
      let card ← Checks.require (g.nodes.get? card_id) (.unknown_card card_id r.session_id)
      Checks.guard (card.type = "reports.result_card") (.not_a_result_card card_id card.type)
      let (stored, pairs) ← normalize_result_card_blocks str g blocks
      let in_port ← find_port card "results" (some .IN)
      let unwired := pairs.filter (· ∉ wired g card_id)
      let edges ← card_edges g r.ids 0 unwired card_id in_port.id
      let params := (Dict.empty.set "blocks_json" (ParamValue.str (dumps_blocks stored)))
      let params := match title with
        | none => params
        | some title => params.set "title" (.str title)
      return fun version =>
        { base_version := version, add_edges := edges, set_params := Dict.empty.set card_id params
          description := r.reason_or ("Updated result card: " ++ card_id), author := r.author }

/-- The mutation is based on the version it is given. -/
theorem EditRequest.base_version {str : ParamValue → String} {r : EditRequest} {g : Graph Sub}
    {m : Int → GraphMutation Sub} (h : r.mutation str g = .ok m) (version : Int) :
    (m version).base_version = version := by
  unfold EditRequest.mutation at h
  split at h
  next =>
    simp only [Checks.bind_eq_ok] at h
    obtain ⟨_, -, _, -, _, -, _, -, h⟩ := h
    cases h
    rfl
  next =>
    cases h
    rfl
  next =>
    simp only [Checks.bind_eq_ok] at h
    obtain ⟨_, -, _, -, _, -, h⟩ := h
    cases h
    rfl
  next =>
    simp only [Checks.bind_eq_ok] at h
    obtain ⟨_, -, ⟨⟩, -, _, -, _, -, _, -, h⟩ := h
    cases h
    rfl

end EmergentFlow
