import Emucap.Lib.Checked
import Emucap.Lib.JsonParse
import Emucap.Lib.JsonText
import Emucap.Lib.Loop
import Emucap.Live.Protocol

/-!
# The QMP client

`QmpClient` of `qmp.rs`: one request at a time; events are put aside, and the first other message has to be the
response. The answers of the clock and the socket are a list of happenings; what the client does is its `deeds`.
-/

namespace Emucap.Qmp

open Emucap.Lib

def maxPendingEvents : ℕ := 1024

def maxPendingEventBytes : ℕ := 8 * 1024 * 1024

def maxNdjsonFrameBytes : ℕ := 8 * 1024 * 1024

/-! ## Errors -/

inductive IoKind where
  | wouldBlock
  | timedOut
  | unexpectedEof
  | invalidData
  | writeZero
  | other (text : String)
  deriving DecidableEq

def IoKind.ofRead : Live.ReadErrorKind → IoKind
  | .wouldBlock => .wouldBlock
  | .timedOut => .timedOut
  | .unexpectedEof => .unexpectedEof
  | .invalidData => .invalidData

inductive QmpError where
  | emulator (errorClass description : String)
  | protocol (message : String)
  | poisoned
  | io (kind : IoKind)
  | json (message : String)
  deriving DecidableEq

/-! ## The world of a client -/

inductive Happening where
  /-- whether the deadline has passed -/
  | clock (expired : Bool)
  /-- `set_read_timeout` or `set_write_timeout` -/
  | option (error : Option IoKind)
  /-- a write took so many bytes -/
  | wrote (count : ℕ)
  | writeFailed (kind : IoKind)
  /-- a read gave these bytes; none at the end of the stream -/
  | arrived (bytes : List UInt8)
  | readFailed (kind : IoKind)
  deriving DecidableEq

inductive Deed where
  | wrote (bytes : List UInt8)
  /-- the request with this id is completely written -/
  | requested (id : ℕ)
  | arrived (bytes : List UInt8)
  | optionFailed
  /-- a message, and the length of its line -/
  | received (message : Json) (bytes : ℕ)
  deriving DecidableEq

/-- An event that waits, and the length of its line. -/
structure Event where
  message : Json
  bytes : ℕ
  deriving DecidableEq

structure World where
  /-- the bytes in the `BufReader` -/
  buffered : List UInt8
  pending : List UInt8
  events : List Event
  eventBytes : ℕ
  nextId : ℕ
  poisoned : Bool
  happenings : List Happening
  deeds : List Deed
  deriving DecidableEq

/-- Why a call has no result. -/
inductive Stop where
  | failed (error : QmpError)
  /-- the happenings do not go on -/
  | cut
  /-- a loop was not given enough rounds -/
  | unfinished
  deriving DecidableEq

/-- The readers and writers of floats and the texts of the decoders' errors. -/
structure Texts where
  floatBits : List Char → Option UInt64
  floatText : UInt64 → List Char
  utf8Error : List UInt8 → String
  jsonError : String → String

abbrev Exchange := EStateM Stop World

variable {α : Type} (t : Texts)

/-! ## The clock and the socket -/

def note (d : Deed) : Exchange Unit := modify fun w => { w with deeds := w.deeds ++ [d] }

def next (read : Happening → Option α) : Exchange α := fun w =>
  match w.happenings with
  | [] => .error .cut w
  | h :: rest =>
    match read h with
    | some a => .ok a { w with happenings := rest }
    | none => .error .cut w

def Happening.clock? : Happening → Option Bool
  | .clock expired => some expired
  | _ => none

def Happening.option? : Happening → Option (Option IoKind)
  | .option error => some error
  | _ => none

def Happening.write? : Happening → Option (Except IoKind ℕ)
  | .wrote count => some (.ok count)
  | .writeFailed kind => some (.error kind)
  | _ => none

def Happening.read? : Happening → Option (Except IoKind (List UInt8))
  | .arrived bytes => some (.ok bytes)
  | .readFailed kind => some (.error kind)
  | _ => none

/-! ## Failing -/

def ensureUsable : Exchange Unit := do
  if (← get).poisoned then throw (.failed .poisoned) else pure ()

def poison (error : QmpError) : Exchange α := do
  modify fun w => { w with poisoned := true }
  throw (.failed error)

def protocolError (message : String) : Exchange α := poison (.protocol message)

def streamError (kind : IoKind) : Exchange α := poison (.io kind)

/-! ## Writing and reading -/

def remaining : Exchange Unit := do
  if ← next Happening.clock? then streamError .timedOut else pure ()

/-- `set_read_timeout` or `set_write_timeout`; a failure is passed on as it is. -/
def setTimeout : Exchange Unit := do
  match ← next Happening.option? with
  | none => pure ()
  | some kind =>
    note .optionFailed
    throw (.failed (.io kind))

/-- The loop of `write_value` over the bytes that are not written yet; a round writes at least one of them. -/
def writeLoop : ℕ → List UInt8 → Exchange Unit
  | 0, _ => pure ()
  | rounds + 1, bytes =>
    if bytes = [] then pure ()
    else do
      remaining
      setTimeout
      match ← next Happening.write? with
      | .error kind => streamError kind
      | .ok 0 => streamError .writeZero
      | .ok (count + 1) =>
        note (.wrote (bytes.take (count + 1)))
        writeLoop rounds (bytes.drop (count + 1))

def lineOf (value : Json) : List UInt8 := utf8 (String.ofList (Json.compact t.floatText value)) ++ [Live.lineFeed]

def writeValue (value : Json) : Exchange Unit := writeLoop (lineOf t value).length (lineOf t value)

/-- The reader that a read leaves behind: what is buffered, or the one arrival. -/
def arrival : List UInt8 → Live.Reader
  | [] => ⟨[], []⟩
  | b :: bs => ⟨[], [.bytes b bs]⟩

/-- `read_ndjson_chunk` on a reader. -/
def readChunkFrom (reader : Live.Reader) : Exchange (Except IoKind (Option String)) := do
  let w ← get
  let read := Live.readNdjsonChunkWithLimit t.utf8Error maxNdjsonFrameBytes ⟨reader, w.pending⟩
  modify fun w => { w with buffered := read.2.reader.buffer, pending := read.2.pending }
  return read.1.mapError fun e => .ofRead e.kind

/-- `read_ndjson_chunk`: the socket is read when nothing is buffered. -/
def readNdjsonChunk : Exchange (Except IoKind (Option String)) := do
  let w ← get
  if w.buffered ≠ [] then readChunkFrom t ⟨w.buffered, []⟩
  else
    match ← next Happening.read? with
    | .error kind => return .error kind
    | .ok bytes =>
      note (.arrived bytes)
      readChunkFrom t (arrival bytes)

def readRound : Exchange (Option String) := do
  remaining
  setTimeout
  match ← readNdjsonChunk t with
  | .ok (some line) => return some line
  | .ok none => streamError .unexpectedEof
  | .error .wouldBlock => return none
  | .error kind => streamError kind

def readLine : Exchange String := fun w => untilValue .unfinished (readRound t) (w.happenings.length + 1) w

/-- A message, and the length of its line. -/
def readValue : Exchange (Json × ℕ) := do
  let line ← readLine t
  remaining
  match Json.fromStr t.floatBits line.toList with
  | some message =>
    note (.received message line.utf8ByteSize)
    return (message, line.utf8ByteSize)
  | none => poison (.json (t.jsonError line))

/-! ## Requests -/

def takeId : Exchange ℕ := do
  let w ← get
  match checkedAdd w.nextId 1 with
  | some following =>
    set { w with nextId := following }
    return w.nextId
  | none => protocolError "request id space exhausted"

def request (command : String) (id : ℕ) (arguments : Option Json) : Json :=
  let plain : Json := .obj [("execute", .str command), ("id", .nat id)]
  match arguments with
  | none => plain
  | some arguments => plain.set "arguments" arguments

def pushEvent (message : Json) (bytes : ℕ) : Exchange Unit := do
  let w ← get
  if maxPendingEvents ≤ w.events.length ∨ maxPendingEventBytes - w.eventBytes < bytes then
    protocolError "pending event budget exceeded"
  else set { w with eventBytes := w.eventBytes + bytes, events := w.events ++ [Event.mk message bytes] }

def idText (response : Json) : String :=
  match response.get "id" with
  | some id => String.ofList (Json.compact t.floatText id)
  | none => "missing"

def errorText (error : Json) (field default : String) : String := ((error.get field).bind Json.asStr).getD default

/-- What a message that is no event answers to the request with this id. -/
def answer (id : ℕ) (response : Json) : Exchange Json :=
  if (response.get "id").bind Json.asU64 ≠ some id then
    protocolError s!"response id mismatch: expected {id}, got {idText t response}"
  else
    match response.get "return", response.get "error" with
    | some result, _ => pure result
    | none, some error =>
      throw (.failed (.emulator (errorText error "class" "GenericError") (errorText error "desc" "QMP command failed")))
    | none, none => protocolError "response contains neither return nor error"

def responseRound (id : ℕ) : Exchange (Option Json) := do
  let (message, bytes) ← readValue t
  if (message.get "event").isSome then
    pushEvent message bytes
    return none
  else some <$> answer t id message

def awaitResponse (id : ℕ) : Exchange Json := fun w =>
  untilValue .unfinished (responseRound t id) (w.happenings.length + 1) w

def executeInner (command : String) (arguments : Option Json) : Exchange Json := do
  ensureUsable
  let id ← takeId
  if (arguments.filter fun a => !a.isObject).isSome then
    throw (.failed (.protocol "QMP command arguments must be a JSON object"))
  else
    writeValue t (request command id arguments)
    note (.requested id)
    awaitResponse t id

/-! ## The client -/

def fresh (happenings : List Happening) : World := ⟨[], [], [], 0, 1, false, happenings, []⟩

/-- `initialize`: the greeting, and the first request. -/
def handshake : Exchange Unit := do
  let (greeting, _) ← readValue t
  if ((greeting.get "QMP").filter Json.isObject).isNone then
    protocolError "server greeting does not contain a QMP object"
  else
    let _ ← executeInner t "qmp_capabilities" none
    return ()

def drainEvents (w : World) : List Json × World := (w.events.map (·.message), { w with eventBytes := 0, events := [] })

end Emucap.Qmp
