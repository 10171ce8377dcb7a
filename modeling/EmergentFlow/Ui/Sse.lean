import EmergentFlow.Lib.Json
import EmergentFlow.Lib.Split

/-!
# Ui — Sse

The reader of the event stream of a run (`ui/src/exec/sse.ts`). The network hands over
the bytes in chunks of any sizes; what a chunk leaves incomplete is carried over,
the bytes of a split character by the decoder, the text of a split frame by the
buffer. The decoder of the host and its `JSON.parse` are parameters.

`read_eq` says that the loop comes to one fold over the frames of the whole
text, in which the chunks are gone.
-/

namespace EmergentFlow.Sse

open Split (split leftover)

variable {σ ε : Type}

/-! ## The host -/

/-- A `TextDecoder`, its state, and `decode(value, { stream: true })`. -/
structure TextDecoder (σ : Type) where
  start : σ
  decode : σ → List UInt8 → List Char × σ

/-- Decoding goes on where it stopped. -/
structure TextDecoder.Streaming (decoder : TextDecoder σ) : Prop where
  nil : ∀ s, decoder.decode s [] = ([], s)
  append : ∀ s bytes more, decoder.decode s (bytes ++ more) =
    ((decoder.decode s bytes).1 ++ (decoder.decode (decoder.decode s bytes).2 more).1,
      (decoder.decode (decoder.decode s bytes).2 more).2)

/-- What a condition takes for true. -/
def js_truthy : Json → Bool
  | .null => false
  | .bool b => b
  | .int i => i ≠ 0
  | .float (.finite x) => x ≠ 0
  | .float (.infinity _) => true
  | .float .nan => false
  | .str s => s ≠ ""
  | .arr _ => true
  | .obj _ => true

/-! ## The reader -/

def frameEnd : List Char := ['\n', '\n']

def lineEnd : List Char := ['\n']

def dataPrefix : List Char := "data: ".toList

def frames (text : List Char) : List (List Char) := split frameEnd (by decide) text

def lines (frame : List Char) : List (List Char) := split lineEnd (by decide) frame

/-- The event of the first data line, if there is one. -/
def parseFrame (parse : String → Except ε Json) (frame : List Char) : Except ε (Option Json) :=
  match (lines frame).find? (dataPrefix.isPrefixOf ·) with
  | some line => (parse (String.ofList (line.drop dataPrefix.length))).map some
  | none => .ok none

/-- What the generator has yielded, and what it threw if it did. -/
structure Output (ε : Type) where
  events : List Json := []
  thrown : Option ε := none

/-- One frame; after a throw nothing is yielded. -/
def takeFrame (parse : String → Except ε Json) (output : Output ε) (frame : List Char) :
    Output ε :=
  match output.thrown with
  | some _ => output
  | none =>
      match parseFrame parse frame with
      | .error e => { output with thrown := some e }
      | .ok none => output
      | .ok (some event) =>
          if js_truthy event then { output with events := output.events ++ [event] } else output

/-- The loop, from what the decoder and the buffer carry over. -/
def readLoop (parse : String → Except ε Json) (decoder : TextDecoder σ) (state : σ)
    (buffer : List Char) (output : Output ε) : List (List UInt8) → Output ε
  | [] => takeFrame parse output buffer
  | value :: rest =>
      let decoded := decoder.decode state value
      let pieces := frames (buffer ++ decoded.1)
      let output := pieces.dropLast.foldl (takeFrame parse) output
      match output.thrown with
      | some _ => output
      | none => readLoop parse decoder decoded.2 (leftover pieces) output rest

def readSSEEvents (parse : String → Except ε Json) (decoder : TextDecoder σ)
    (chunks : List (List UInt8)) : Output ε :=
  readLoop parse decoder decoder.start [] {} chunks

/-! ## One fold -/

variable {parse : String → Except ε Json} {decoder : TextDecoder σ}

theorem takeFrame_thrown {output : Output ε} (h : output.thrown ≠ none) (frame : List Char) :
    takeFrame parse output frame = output := by
  rw [takeFrame]
  cases hthrown : output.thrown with
  | none => exact absurd hthrown h
  | some _ => rfl

theorem foldl_thrown {output : Output ε} (h : output.thrown ≠ none) (l : List (List Char)) :
    l.foldl (takeFrame parse) output = output := by
  induction l with
  | nil => rfl
  | cons frame l ih => rw [List.foldl_cons, takeFrame_thrown h, ih]

theorem frames_append (text more : List Char) :
    frames (text ++ more) = (frames text).dropLast ++ frames (leftover (frames text) ++ more) :=
  Split.split_append _ text more

/-- The loop takes the frames of the carried text and of all that follows. -/
theorem readLoop_eq (hdecoder : decoder.Streaming) (chunks : List (List UInt8)) {state : σ}
    {buffer : List Char} (hbuffer : frames buffer = [buffer]) (output : Output ε) :
    readLoop parse decoder state buffer output chunks =
      (frames (buffer ++ (decoder.decode state chunks.flatten).1)).foldl (takeFrame parse)
        output := by
  induction chunks generalizing state buffer output with
  | nil =>
      rw [List.flatten_nil, hdecoder.nil, List.append_nil, hbuffer]
      rfl
  | cons value rest ih =>
      rw [List.flatten_cons, hdecoder.append, ← List.append_assoc,
        frames_append (buffer ++ (decoder.decode state value).1), List.foldl_append, readLoop]
      generalize hpieces : frames (buffer ++ (decoder.decode state value).1) = pieces
      have hrest : frames (leftover pieces) = [leftover pieces] :=
        hpieces ▸ Split.split_leftover _ _
      -- either a frame of this chunk threw, or the loop goes on with what is left over
      cases hthrown : (pieces.dropLast.foldl (takeFrame parse) output).thrown with
      | some e =>
          have hne : (pieces.dropLast.foldl (takeFrame parse) output).thrown ≠ none := by
            rw [hthrown]
            exact Option.some_ne_none e
          rw [foldl_thrown hne]
      | none => exact ih hrest _

/-- The chunks come to the text they decode to. -/
theorem read_eq (hdecoder : decoder.Streaming) (chunks : List (List UInt8)) :
    readSSEEvents parse decoder chunks =
      (frames (decoder.decode decoder.start chunks.flatten).1).foldl (takeFrame parse) {} := by
  rw [readSSEEvents, readLoop_eq hdecoder chunks (Split.split_nil _), List.nil_append]

/-! ## Complete frames -/

/-- A frame as the server writes it: one data line and the blank line after it. -/
def dataFrame (json : String) : List Char := dataPrefix ++ json.toList ++ frameEnd

/-- The text of an event, on one line. -/
structure Encodes (parse : String → Except ε Json) (json : String) (event : Json) : Prop where
  line : '\n' ∉ json.toList
  parsed : parse json = .ok event
  truthy : js_truthy event = true

theorem newline_notMem {json : String} (h : '\n' ∉ json.toList) :
    ∀ c ∈ dataPrefix ++ json.toList, '\n' ≠ c := by
  intro c hc heq
  subst heq
  rcases List.mem_append.mp hc with hstart | hjson
  · exact absurd hstart (by decide)
  · exact h hjson

theorem frames_dataFrame {json : String} (h : '\n' ∉ json.toList) (rest : List Char) :
    frames (dataFrame json ++ rest) = (dataPrefix ++ json.toList) :: frames rest := by
  rw [dataFrame, List.append_assoc]
  exact Split.split_piece _ (newline_notMem h) rest

theorem parseFrame_dataFrame {json : String} {event : Json} (h : Encodes parse json event) :
    parseFrame parse (dataPrefix ++ json.toList) = .ok (some event) := by
  have hline : lines (dataPrefix ++ json.toList) = [dataPrefix ++ json.toList] := by
    apply Split.split_of_absent
    intro hsub
    exact newline_notMem h.line '\n' (hsub.subset (List.mem_singleton_self _)) rfl
  have hfind : [dataPrefix ++ json.toList].find? (dataPrefix.isPrefixOf ·) =
      some (dataPrefix ++ json.toList) :=
    List.find?_cons_of_pos (List.isPrefixOf_iff_prefix.mpr (List.prefix_append _ _))
  rw [parseFrame, hline, hfind]
  simp only [List.drop_left, String.ofList_toList, h.parsed]
  rfl

theorem takeFrame_dataFrame {json : String} {event : Json} (h : Encodes parse json event)
    (events : List Json) :
    takeFrame parse { events } (dataPrefix ++ json.toList) = { events := events ++ [event] } := by
  rw [takeFrame, parseFrame_dataFrame h]
  exact if_pos h.truthy

/-- Frames one after the other come to their events, and nothing is left over. -/
theorem foldl_dataFrames {sent : List (String × Json)} (h : ∀ e ∈ sent, Encodes parse e.1 e.2)
    (events : List Json) :
    (frames (sent.flatMap fun e => dataFrame e.1)).foldl (takeFrame parse) { events } =
      { events := events ++ sent.map (·.2) } := by
  induction sent generalizing events with
  | nil =>
      have hempty : frames [] = [[]] := Split.split_nil _
      have hnone : parseFrame parse [] = .ok none := by
        rw [parseFrame, lines, Split.split_nil]
        rfl
      rw [List.flatMap_nil, hempty, List.foldl_cons, List.foldl_nil, takeFrame, hnone, List.map_nil,
        List.append_nil]
  | cons e sent ih =>
      have hfirst := h e List.mem_cons_self
      rw [List.flatMap_cons, frames_dataFrame hfirst.line, List.foldl_cons,
        takeFrame_dataFrame hfirst, ih (fun e he => h e (List.mem_cons_of_mem _ he)),
        List.append_assoc]
      rfl

/-- However the bytes are split into chunks, the reader gives what it gives
for one chunk; for complete frames, their events, each once and in order. -/
theorem readSSEEvents_chunking (parse : String → Except ε Json) (decoder : TextDecoder σ)
    (hdecoder : decoder.Streaming) (stream : List UInt8) (chunks : List (List UInt8))
    (hchunks : chunks.flatten = stream) :
    readSSEEvents parse decoder chunks = readSSEEvents parse decoder [stream] ∧
    ∀ sent : List (String × Json), (∀ e ∈ sent, Encodes parse e.1 e.2) →
      (decoder.decode decoder.start stream).1 = sent.flatMap (fun e => dataFrame e.1) →
      readSSEEvents parse decoder chunks = { events := sent.map (·.2), thrown := none } := by
  subst hchunks
  constructor
  · rw [read_eq hdecoder, read_eq hdecoder, List.flatten_singleton]
  · intro sent hsent htext
    rw [read_eq hdecoder, htext, foldl_dataFrames hsent, List.nil_append]

/-- A decoder that takes one byte at a time. -/
def byteDecoder (step : σ → UInt8 → List Char × σ) (start : σ) : TextDecoder σ where
  start := start
  decode := decode
where
  decode (state : σ) : List UInt8 → List Char × σ
    | [] => ([], state)
    | byte :: rest =>
        let first := step state byte
        let more := decode first.2 rest
        (first.1 ++ more.1, more.2)

theorem byteDecoder_streaming (step : σ → UInt8 → List Char × σ) (start : σ) :
    (byteDecoder step start).Streaming where
  nil _ := rfl
  append s bytes more := by
    induction bytes generalizing s with
    | nil => rfl
    | cons byte rest ih =>
        have hrest := ih (step s byte).2
        simp only [byteDecoder, List.cons_append, byteDecoder.decode] at hrest ⊢
        rw [hrest, List.append_assoc]

/-- Well-formed UTF-8: how many bytes of a character are still to come, and
what the ones so far stand for. -/
def utf8_step (state : Option (Nat × Nat)) (byte : UInt8) : List Char × Option (Nat × Nat) :=
  let b := byte.toNat
  match state with
  | some (1, sofar) => ([Char.ofNat (sofar * 0x40 + (b - 0x80))], none)
  | some (left, sofar) => ([], some (left - 1, sofar * 0x40 + (b - 0x80)))
  | none =>
      if b < 0x80 then ([Char.ofNat b], none)
      else if b < 0xE0 then ([], some (1, b - 0xC0))
      else if b < 0xF0 then ([], some (2, b - 0xE0))
      else ([], some (3, b - 0xF0))

def accent_text : String := "[\"é\"]"

def parse_accent (text : String) : Except Unit Json :=
  if text = accent_text then .ok (.arr [.str "é"]) else .error ()

/-- One frame whose second chunk starts inside a character and ends inside
the blank line. -/
def accent_chunks : List (List UInt8) :=
  [[100, 97, 116, 97, 58, 32, 91, 34, 195], [169, 34, 93, 10], [10]]

theorem readSSEEvents_chunking_accent :
    readSSEEvents parse_accent (byteDecoder utf8_step none) accent_chunks =
      { events := [.arr [.str "é"]], thrown := none } := by
  have hlaw := readSSEEvents_chunking parse_accent (byteDecoder utf8_step none)
    (byteDecoder_streaming _ _) accent_chunks.flatten accent_chunks rfl
  have hsent : ∀ e ∈ [(accent_text, Json.arr [.str "é"])], Encodes parse_accent e.1 e.2 := by
    intro e he
    rw [List.mem_singleton.mp he]
    exact ⟨by decide, if_pos rfl, rfl⟩
  exact hlaw.2 _ hsent (by decide)

end EmergentFlow.Sse
