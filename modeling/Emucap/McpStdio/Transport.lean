import Emucap.Lib.JsonParse
import Emucap.Lib.Loop
import Emucap.Lib.Pieces

/-!
# The stdio transport

`BoundedStdioTransport` of `mcp_stdio.rs`: `receive` reads lines until it has a message to return. A schedule says
what happens at each await: it is ready, it fails, or the call is dropped there (`Cut.dropped`).
-/

namespace Emucap.McpStdio

open Emucap.Lib

def maxMcpStdinLineBytes : ℕ := 1024 * 1024

def protocolVersionKey : String := "io.modelcontextprotocol/protocolVersion"

def clientCapabilitiesKey : String := "io.modelcontextprotocol/clientCapabilities"

def utf8Bom : List UInt8 := [0xEF, 0xBB, 0xBF]

def newline : UInt8 := 10

/-! ## What the transport uses -/

/-- The messages of the protocol library, and the texts of the decoder's errors. -/
structure Protocol (μ ι : Type) where
  /-- `serde_json`'s reading of a float -/
  floatBits : List Char → Option UInt64
  /-- the error of `serde_json::from_slice` -/
  parseError : List UInt8 → String
  /-- `from_value::<ClientJsonRpcMessage>` -/
  decode : Json → Except String μ
  /-- the id of a `ClientJsonRpcMessage::Request` -/
  request : μ → Option ι
  /-- `from_value::<RequestId>` -/
  decodeId : Json → Option ι

inductive ErrorCode where
  | parseError
  | invalidRequest
  deriving DecidableEq

structure Rejection (ι : Type) where
  code : ErrorCode
  message : String
  data : Option Json
  id : Option ι

/-- The awaits of `receive`: the read, and the writes of its three kinds of rejections. -/
inductive Await where
  | fillBuf
  | oversized
  | parseLine
  | admitInitial
  deriving DecidableEq

/-- What happens at an await. -/
inductive Turn where
  | ready
  /-- the read or the write fails -/
  | fails
  /-- the call is dropped while it waits -/
  | dropped
  deriving DecidableEq

/-- A chunk of the stream. An empty read is the end of the stream. -/
structure Chunk where
  first : UInt8
  more : List UInt8
  deriving DecidableEq

def Chunk.bytes (c : Chunk) : List UInt8 := c.first :: c.more

inductive Event (μ ι : Type) where
  /-- a line is handed to `parse_line` -/
  | handed (line : List UInt8)
  | rejected (rejection : Rejection ι)
  | returned (message : μ) (raw : Json)

/-- The transport, the stream and the schedule before it, and what it has done. -/
structure Stdio (μ ι : Type) where
  /-- the bytes in the `BufReader` -/
  buffered : List UInt8
  line : List UInt8
  discardingOversized : Bool
  admitted : Bool
  chunks : List Chunk
  /-- whether the stream ends after the chunks -/
  ended : Bool
  schedule : List (Await × Turn)
  /-- the bytes that were taken out of the reader -/
  consumed : List UInt8
  trace : List (Event μ ι)

/-- Why a call has not returned. -/
inductive Cut where
  | dropped
  /-- it still waits -/
  | pending
  /-- its loop was not given enough rounds -/
  | unfinished
  deriving DecidableEq

variable {μ ι : Type}

abbrev Receiving (μ ι : Type) := EStateM Cut (Stdio μ ι)

namespace Stdio

def unread (s : Stdio μ ι) : List UInt8 := s.buffered ++ s.chunks.flatMap Chunk.bytes

def size (s : Stdio μ ι) : ℕ := s.unread.length + s.schedule.length

end Stdio

def note (e : Event μ ι) : Receiving μ ι Unit := modify fun s => { s with trace := s.trace ++ [e] }

def await (site : Await) : Receiving μ ι Bool := fun s =>
  match s.schedule with
  | [] => .error .pending s
  | (next, turn) :: rest =>
    if next = site then
      match turn with
      | .ready => .ok true { s with schedule := rest }
      | .fails => .ok false { s with schedule := rest }
      | .dropped => .error .dropped { s with schedule := rest }
    else .error .pending s

def nextChunk : Receiving μ ι (List UInt8) := fun s =>
  match s.chunks with
  | chunk :: rest => .ok chunk.bytes { s with buffered := chunk.bytes, chunks := rest }
  | [] => if s.ended then .ok [] s else .error .pending s

/-- `fill_buf`: the bytes that stand in the buffer, read when there are none; nothing if the read fails. -/
def fillBuf : Receiving μ ι (Option (List UInt8)) := do
  let s ← get
  if s.buffered ≠ [] then return some s.buffered
  else if ← await .fillBuf then some <$> nextChunk
  else return none

def consume (count : ℕ) : Receiving μ ι Unit := modify fun s =>
  { s with buffered := s.buffered.drop count, consumed := s.consumed ++ s.buffered.take count }

/-! ## Reading a line -/

inductive BoundedLine where
  | line
  | oversized
  | eof
  deriving DecidableEq

/-- `self.line.clear()`, or whatever else happens to the line and the flag. -/
def setLine (line : List UInt8) (discardingOversized : Bool) : Receiving μ ι Unit := modify fun s =>
  { s with line := line, discardingOversized := discardingOversized }

def readEnd (s : Stdio μ ι) : Receiving μ ι (Option (Option BoundedLine)) :=
  if s.discardingOversized then do
    setLine s.line false
    return some (some .oversized)
  else do
    setLine [] s.discardingOversized
    return some (some .eof)

def readDiscarding (s : Stdio μ ι) (available : List UInt8) : Receiving μ ι (Option (Option BoundedLine)) :=
  if newline ∈ available then do
    consume (available.idxOf newline + 1)
    setLine s.line false
    return some (some .oversized)
  else do
    consume available.length
    return none

def readCollecting (s : Stdio μ ι) (available : List UInt8) : Receiving μ ι (Option (Option BoundedLine)) :=
  if newline ∈ available then
    let position := available.idxOf newline
    if maxMcpStdinLineBytes < s.line.length + position then do
      setLine [] s.discardingOversized
      consume (position + 1)
      return some (some .oversized)
    else do
      setLine (s.line ++ available.take position) s.discardingOversized
      consume (position + 1)
      return some (some .line)
  else if maxMcpStdinLineBytes < s.line.length + available.length then do
    setLine [] true
    consume available.length
    return none
  else do
    setLine (s.line ++ available) s.discardingOversized
    consume available.length
    return none

/-- One round of `read_bounded_line`; `none` goes on, and `some none` is an error of the reader. -/
def readRound : Receiving μ ι (Option (Option BoundedLine)) := do
  match ← fillBuf with
  | none => return some none
  | some available =>
    let s ← get
    if available = [] then readEnd s
    else if s.discardingOversized then readDiscarding s available
    else readCollecting s available

def readBoundedLine : Receiving μ ι (Option BoundedLine) := fun s => untilValue .unfinished readRound (s.size + 1) s

/-! ## Answering a line -/

section protocol
variable (p : Protocol μ ι)

def requestId (raw : Json) : Option ι := (raw.get "id").bind p.decodeId

def reject (site : Await) (rejection : Rejection ι) : Receiving μ ι Bool := do
  note (.rejected rejection)
  await site

/-- The text of a line: without a carriage return at its end and a mark at its start. -/
def lineText (line : List UInt8) : List UInt8 :=
  let text := if line.getLast? = some 13 then line.dropLast else line
  if utf8Bom.isPrefixOf text then text.drop utf8Bom.length else text

/-- What a line is, before anything is written. -/
inductive Decoded (μ ι : Type) where
  | blank
  | message (message : μ) (raw : Json)
  | refused (rejection : Rejection ι)

def decodeLine (line : List UInt8) : Decoded μ ι :=
  let text := lineText line
  if text = [] then .blank
  else
    match Json.fromSlice p.floatBits text with
    | none => .refused ⟨.parseError, "Parse error", some (.str (p.parseError text)), none⟩
    | some raw =>
      match p.decode raw with
      | .ok message => .message message raw
      | .error error => .refused ⟨.invalidRequest, "Invalid request", some (.str error), requestId p raw⟩

/-- `parse_line`: `none` is a failed write. -/
def parseLine : Receiving μ ι (Option (Option (μ × Json))) := do
  let s ← get
  note (.handed s.line)
  match decodeLine p s.line with
  | .blank => return some none
  | .message message raw => return some (some (message, raw))
  | .refused rejection => return if ← reject .parseLine rejection then some none else none

/-- The metadata that a modern request carries, and this one does not. -/
def missingMetadata (raw : Json) : List String :=
  let metadata := (raw.get "params").bind (·.get "_meta")
  (if ((metadata.bind (·.get protocolVersionKey)).bind Json.asStr).isNone then [protocolVersionKey] else []) ++
    if (metadata.bind (·.get clientCapabilitiesKey)).isNone then [clientCapabilitiesKey] else []

def methodOf (raw : Json) : String := ((raw.get "method").bind Json.asStr).getD ""

/-- What the admission makes of a message: it is returned, with or without ending the admission, or rejected. -/
inductive Admission (ι : Type) where
  | ping
  | admits
  | refused (rejection : Rejection ι)

def admission (message : μ) (raw : Json) : Admission ι :=
  match p.request message with
  | none =>
    .refused ⟨.invalidRequest, "Expected an initialize, ping, or modern request", none, requestId p raw⟩
  | some id =>
    if methodOf raw = "ping" then .ping
    else if methodOf raw = "initialize" then .admits
    else if missingMetadata raw ≠ [] then
      .refused ⟨.invalidRequest, "Missing required modern MCP request metadata",
        some (.obj [("missing", .arr ((missingMetadata raw).map .str))]), some id⟩
    else .admits

/-- `admit_initial`: whether the message is returned; `none` is a failed write. -/
def admitInitial (message : μ) (raw : Json) : Receiving μ ι (Option Bool) := do
  match admission p message raw with
  | .ping => return some true
  | .admits =>
    modify fun s => { s with admitted := true }
    return some true
  | .refused rejection => return if ← reject .admitInitial rejection then some false else none

/-! ## Receiving -/

def oversizedRejection : Rejection ι :=
  ⟨.invalidRequest, s!"MCP stdio line exceeds the {maxMcpStdinLineBytes}-byte limit", none, none⟩

def returnMessage (message : μ) (raw : Json) : Receiving μ ι (Option (Option μ)) := do
  note (.returned message raw)
  return some (some message)

def admitMessage (message : μ) (raw : Json) : Receiving μ ι (Option (Option μ)) := do
  if (← get).admitted then returnMessage message raw
  else
    match ← admitInitial p message raw with
    | some true => returnMessage message raw
    | some false => return none
    | none => return some none

/-- One round of `receive`; `none` goes on. -/
def receiveRound : Receiving μ ι (Option (Option μ)) := do
  match ← readBoundedLine with
  | none => return some none
  | some .eof => return some none
  | some .oversized => return if ← reject .oversized oversizedRejection then none else some none
  | some .line =>
    let parsed ← parseLine p
    modify fun s => { s with line := [] }
    match parsed with
    | none => return some none
    | some none => return none
    | some (some (message, raw)) => admitMessage p message raw

def receive : Receiving μ ι (Option μ) := fun s => untilValue .unfinished (receiveRound p) (s.size + 1) s

/-- Calls of `receive`, each on what the one before has left, up to one that still waits. -/
def session : ℕ → Stdio μ ι → Stdio μ ι
  | 0, s => s
  | calls + 1, s =>
    match receive p s with
    | .ok _ t => session calls t
    | .error .dropped t => session calls t
    | .error _ t => t

end protocol

end Emucap.McpStdio
