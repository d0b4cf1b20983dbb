import Emucap.Live.Protocol
import Emucap.Live.Temporal.Wire

/-!
# Calls of a TCP link

`raw_call_inner` (`live/tcp/call.rs`) writes one request line and reads frames until the terminal one of its own
identifier. A connection survives an ordinary timeout; every other trouble retires it. `log` and `streams` are history
that no call reads.
-/

namespace Emucap.Live.Tcp

open Emucap.Lib

def maxFrameBytes : ℕ := 8 * 1024 * 1024

def maxConsecutiveTimeouts : ℕ := 3

def maxIdMismatch : ℕ := 256

/-! ## The link -/

structure Attachment where
  key : ℕ
  io : Conn

inductive What where
  /-- a request or an abort line; not `whole` where the write failed or was cut short -/
  | line (request : Request) (whole : Bool)
  /-- one read, and what it delivered; nothing on a timeout -/
  | read (delivered : Option Delivery)
  /-- a read that failed below the framing -/
  | lost
  /-- a notice was refused; with the abort line that was written then -/
  | rejected (abort : Option (Request × Bool))
  /-- a deadline expired, or a temporal exchange was not verified -/
  | abandoned

structure WireEvent where
  key : ℕ
  what : What

structure TcpLink where
  conn : Option Attachment
  nextId : ℕ
  consecutiveTimeouts : ℕ
  streams : List (List UInt8)
  log : List WireEvent

namespace TcpLink

def new : TcpLink := ⟨none, 1, 0, [], []⟩

def dropConn (link : TcpLink) : TcpLink := { link with conn := none }

def adopt (link : TcpLink) (arrivals : List Arrival) : TcpLink :=
  { link with
    conn := some ⟨link.streams.length, ⟨⟨[], arrivals⟩, []⟩⟩
    streams := link.streams ++ [arrivals.flatMap Arrival.payload] }

def note (link : TcpLink) (key : ℕ) (what : What) : TcpLink := { link with log := link.log ++ [⟨key, what⟩] }

def advanceId (link : TcpLink) : TcpLink := { link with nextId := min (link.nextId + 1) (2 ^ 64 - 1) }

end TcpLink

inductive SocketError where
  | timedOut (message : String)
  | gone
  | other (message : String)

def ioToLink : SocketError → LinkError
  | .gone => .notConnected
  | .timedOut message => .protocol ("io: " ++ message)
  | .other message => .protocol ("io: " ++ message)

/-- The error of a write: a timeout has a name of its own. -/
def writeError : SocketError → LinkError
  | .timedOut _ => .timeout
  | e => ioToLink e

def frameError (e : ReadError) : LinkError :=
  match e.kind with
  | .unexpectedEof => .notConnected
  | _ => .protocol ("io: " ++ e.message)

/-! ## Ordinary calls -/

/-- What one pass of the loop of `raw_call_bounded` gets from outside. -/
structure Pass where
  /-- the deadline has come -/
  expired : Bool
  /-- `clamp_socket_deadline` -/
  clamp : Except SocketError Unit
  /-- a read of the socket that fails -/
  reset : Option SocketError
  cancelled : Bool
  observed : Except LinkError Unit
  abortWrite : Except SocketError Unit
  /-- `read_is_deadline_clamped` -/
  clamped : Bool
  /-- the deadline has come by the end of the read -/
  late : Bool

structure BoundedCall where
  id : ℕ
  /-- the call has an observer -/
  observed : Bool
  /-- the call has a control, and with it maybe an abort -/
  control : Option (Option AbortRequest)

def BoundedCall.abort (c : BoundedCall) : Option AbortRequest := c.control.join

inductive PassNext where
  | again (mismatch : ℕ) (abortSent : Bool)
  | finished (result : Except LinkError Json)

structure PassOutcome where
  next : PassNext
  link : TcpLink
  frames : List Response
  shown : List WorkingProgress
  rejection : Option LinkError

def PassOutcome.quiet (next : PassNext) (link : TcpLink) : PassOutcome := ⟨next, link, [], [], none⟩

def BoundedCall.cancelled (c : BoundedCall) (p : Pass) : Bool := c.control.isSome && p.cancelled

def cancelActive (c : BoundedCall) (p : Pass) (mismatch : ℕ) (key : ℕ) (link : TcpLink) : PassNext × TcpLink :=
  match c.abort with
  | none => (.finished (.error .cancelled), link.dropConn)
  | some abort =>
    let request := Request.new link.nextId abort.method abort.params
    let link := link.advanceId.note key (.line request p.abortWrite.isOk)
    match p.abortWrite with
    | .error e => (.finished (.error (writeError e)), link.dropConn)
    | .ok () => (.again mismatch true, link)

/-- A notice was refused: the abort line goes out as well as it can, and the connection is dropped. -/
def rejectNotice (c : BoundedCall) (p : Pass) (key : ℕ) (link : TcpLink) : TcpLink :=
  match c.abort with
  | none => (link.note key (.rejected none)).dropConn
  | some abort =>
    let request := Request.new link.nextId abort.method abort.params
    (link.advanceId.note key (.rejected (some (request, p.abortWrite.isOk)))).dropConn

def afterNotice (c : BoundedCall) (p : Pass) (mismatch : ℕ) (abortSent : Bool) (key : ℕ) (link : TcpLink)
    (shown : List WorkingProgress) : PassOutcome :=
  if abortSent = false ∧ c.cancelled p = true then
    let (next, link) := cancelActive c p mismatch key link
    ⟨next, link, [], shown, none⟩
  else ⟨.again mismatch abortSent, link, [], shown, none⟩

def onWorking (c : BoundedCall) (p : Pass) (mismatch : ℕ) (abortSent : Bool) (key : ℕ) (link : TcpLink)
    (result : Json) : PassOutcome :=
  if c.observed then
    match WorkingProgress.parse result with
    | .error e => ⟨.finished (.error e), rejectNotice c p key link, [], [], some e⟩
    | .ok progress =>
      match p.observed with
      | .error e => ⟨.finished (.error e), rejectNotice c p key link, [], [progress], some e⟩
      | .ok () => afterNotice c p mismatch abortSent key link [progress]
  else afterNotice c p mismatch abortSent key link []

def onResponse (c : BoundedCall) (p : Pass) (mismatch : ℕ) (abortSent : Bool) (key : ℕ) (link : TcpLink)
    (response : Response) : PassOutcome :=
  if response.id ≠ c.id then
    if maxIdMismatch < mismatch + 1 then
      .quiet (.finished (.error (.protocol "too many frames with a mismatched id; stream desynchronized")))
        link.dropConn
    else .quiet (.again (mismatch + 1) abortSent) link
  else if response.ok = false then
    match response.error with
    | some error => .quiet (.finished (.error (.emulator error.kind error.message))) link
    | none => .quiet (.finished (.error (.protocol "response returned ok=false without an error"))) link
  else if response.isWorking then
    onWorking c p mismatch abortSent key link (response.result.getD .null)
  else .quiet (.finished (.ok (response.result.getD .null))) link

def onTimeout (c : BoundedCall) (p : Pass) (mismatch : ℕ) (abortSent : Bool) (key : ℕ) (link : TcpLink) :
    PassNext × TcpLink :=
  if abortSent = false ∧ c.cancelled p = true then cancelActive c p mismatch key link
  else if p.clamped then
    if p.late then
      (.finished (.error .timeout), ({ link with consecutiveTimeouts := 0 }.note key .abandoned).dropConn)
    else (.again mismatch abortSent, link)
  else if maxConsecutiveTimeouts ≤ link.consecutiveTimeouts + 1 then
    (.finished (.error .timeout), { link with consecutiveTimeouts := 0 }.dropConn)
  else (.finished (.error .timeout), { link with consecutiveTimeouts := link.consecutiveTimeouts + 1 })

section codec
variable (document : String → Line) (utf8Error : List UInt8 → String)

def readOn (call : ReadCall) (a : Attachment) (link : TcpLink) : ReadResult × TcpLink :=
  let (result, io) := call.read utf8Error maxFrameBytes a.io
  (result, { link with conn := some ⟨a.key, io⟩ }.note a.key (.read (delivery result)))

def pass (c : BoundedCall) (mismatch : ℕ) (abortSent : Bool) (p : Pass) (link : TcpLink) : PassOutcome :=
  match link.conn with
  | none => .quiet (.finished (.error .notConnected)) link
  | some a =>
    if p.expired then
      .quiet (.finished (.error (if c.cancelled p then .cancelled else .timeout)))
        ({ link with consecutiveTimeouts := 0 }.note a.key .abandoned).dropConn
    else match p.clamp with
      | .error e => .quiet (.finished (.error (ioToLink e))) link
      | .ok () =>
        match p.reset with
        | some e => .quiet (.finished (.error (ioToLink e))) (link.note a.key .lost).dropConn
        | none =>
          match readOn utf8Error .frame a link with
          | (.ok none, link) => .quiet (.finished (.error .notConnected)) link.dropConn
          | (.ok (some text), link) =>
            let link := { link with consecutiveTimeouts := 0 }
            match Response.parse (document text) with
            | none => .quiet (.finished (.error (.protocol "malformed response"))) link.dropConn
            | some response =>
              let out := onResponse c p mismatch abortSent a.key link response
              { out with frames := [response] }
          | (.error e, link) =>
            match delivery (.error e) with
            | none =>
              let (next, link) := onTimeout c p mismatch abortSent a.key link
              .quiet next link
            | some _ => .quiet (.finished (.error (frameError e))) link.dropConn

/-- A call so far: what it read and showed, and its result if it has one. -/
structure Answered where
  result : Option (Except LinkError Json)
  link : TcpLink
  frames : List Response
  shown : List WorkingProgress
  rejection : Option LinkError

def boundedLoop (c : BoundedCall) : ℕ → Bool → List Pass → TcpLink → Answered
  | _, _, [], link => ⟨none, link, [], [], none⟩
  | mismatch, abortSent, p :: ps, link =>
    let out := pass document utf8Error c mismatch abortSent p link
    match out.next with
    | .finished result => ⟨some result, out.link, out.frames, out.shown, out.rejection⟩
    | .again mismatch abortSent =>
      let rest := boundedLoop c mismatch abortSent ps out.link
      { rest with frames := out.frames ++ rest.frames, shown := out.shown ++ rest.shown }

/-- What an ordinary call gets from outside. -/
structure BoundedScript where
  clamp : Except SocketError Unit
  write : Except SocketError Unit
  passes : List Pass
  /-- the socket timeout that is set back after the call -/
  restore : Except SocketError Unit

def Answered.failed (e : LinkError) (link : TcpLink) : Answered := ⟨some (.error e), link, [], [], none⟩

def rawCallBounded (method : String) (params : Json) (observed : Bool) (control : Option (Option AbortRequest))
    (script : BoundedScript) (link : TcpLink) : Answered :=
  match link.conn with
  | none => .failed .notConnected link
  | some a =>
    match script.clamp with
    | .error e => .failed (ioToLink e) link
    | .ok () =>
      let request := Request.new link.nextId method params
      let sent := link.advanceId.note a.key (.line request script.write.isOk)
      match script.write with
      | .error e => .failed (writeError e) sent.dropConn
      | .ok () => boundedLoop document utf8Error ⟨link.nextId, observed, control⟩ 0 false script.passes sent

/-- `raw_call_inner`, for an ordinary call: the socket timeout is set back where the connection is still there. -/
def ordinaryCall (method : String) (params : Json) (observed : Bool) (control : Option (Option AbortRequest))
    (script : BoundedScript) (link : TcpLink) : Answered :=
  let answered := rawCallBounded document utf8Error method params observed control script link
  match answered.result, answered.link.conn, script.restore with
  | some _, some _, .error e => { answered with result := some (.error (ioToLink e)), link := answered.link.dropConn }
  | _, _, _ => answered

/-! ## Temporal calls -/

/-- What one pass of `exchange_inner` gets from outside, besides the stream. -/
structure Moment where
  now : ℕ
  clamp : Except String Unit
  cancelledAt : Option ℕ
  stopNow : ℕ
  stopClamp : Except String Unit
  abortWrite : Except String Unit
  reset : Option String

def Moment.turn (m : Moment) (poll : Temporal.Poll) : Temporal.Turn :=
  ⟨m.now, m.clamp, m.cancelledAt, m.stopNow, m.stopClamp, m.abortWrite, poll⟩

def reaches (c : Temporal.Call) (s : Temporal.Loop) (m : Moment) : Bool :=
  !decide (c.deadline s ≤ m.now) && m.clamp.isOk && s.drained.isNone && (Temporal.stop c s (m.turn .pending)).1.isOk

def pollOn (m : Moment) (io : Conn) : Temporal.Poll × What × Conn :=
  match m.reset with
  | some reason => (.failed reason, .lost, io)
  | none =>
    let (result, io) := ReadCall.read utf8Error maxFrameBytes .chunk io
    let poll := match result with
      | .ok (some text) => .line (document text)
      | .ok none => .closed
      | .error e => match delivery (.error e) with
        | none => .pending
        | some _ => .failed e.message
    (poll, .read (delivery result), io)

def abortLines (key : ℕ) (whole : Bool) (events : List Temporal.Event) : List WireEvent :=
  events.filterMap fun
    | .abort request => some ⟨key, .line request whole⟩
    | _ => none

def responses (events : List Temporal.Event) : List Response :=
  events.filterMap fun
    | .response r => some r
    | _ => none

structure Exchanging where
  result : Option (Except LinkError Temporal.TerminalResponse)
  io : Conn
  log : List WireEvent
  frames : List Response

/-- The loop of `exchange_inner`, on the bytes of a connection. -/
def exchangeLoop (c : Temporal.Call) (key : ℕ) : Temporal.Loop → List Moment → Conn → List WireEvent → Exchanging
  | _, [], io, log => ⟨none, io, log, []⟩
  | s, m :: ms, io, log =>
    let (poll, what, io') := pollOn document utf8Error m io
    let (next, events) := Temporal.turn c s (m.turn poll)
    let reached := reaches c s m
    let io := if reached then io' else io
    let log := log ++ abortLines key m.abortWrite.isOk events ++ if reached then [⟨key, what⟩] else []
    match next with
    | .finished result => ⟨some result, io, log, responses events⟩
    | .again s =>
      let rest := exchangeLoop c key s ms io log
      { rest with frames := responses events ++ rest.frames }

def exchangeInner (request : Request) (abortId : ℕ) (control : ProgressCallControl) (maxHost : ℕ)
    (d : Temporal.Dispatch) (ms : List Moment) (a : Attachment) (log : List WireEvent) : Exchanging :=
  match Temporal.accept request abortId control d.cancelled with
  | .error e => ⟨some (.error e), a.io, log, []⟩
  | .ok (stopMs, abort) =>
    let deadline := Temporal.operationDeadline control maxHost d.start
    if deadline ≤ d.now then
      ⟨some (.error (Temporal.unverified "temporal deadline expired before dispatch")), a.io, log, []⟩
    else match d.clamp with
      | .error reason => ⟨some (.error (Temporal.unverified reason)), a.io, log, []⟩
      | .ok () =>
        let log := log ++ [⟨a.key, .line request d.write.isOk⟩]
        match d.write with
        | .error reason => ⟨some (.error (Temporal.unverified reason)), a.io, log, []⟩
        | .ok () =>
          exchangeLoop document utf8Error ⟨request, .new abortId abort.method abort.params, stopMs, deadline⟩ a.key
            ⟨none, none, none, 0⟩ ms a.io log

/-- What a temporal call gets from outside. -/
structure TemporalScript where
  /-- `SocketTimeouts::capture` -/
  capture : Except String Unit
  dispatch : Temporal.Dispatch
  moments : List Moment
  /-- `SocketTimeouts::restore` -/
  restore : Except String Unit

def temporalCall (method : String) (params : Json) (control : ProgressCallControl) (maxHost : ℕ)
    (script : TemporalScript) (link : TcpLink) : Answered :=
  if 2 ^ 64 ≤ link.nextId + 2 then .failed (.protocol "request ID exhausted") link
  else
    let id := link.nextId
    let link := { link with nextId := id + 2 }
    match link.conn with
    | none => .failed .notConnected link
    | some a =>
      match script.capture with
      | .error reason => .failed (Temporal.unverified reason) (link.note a.key .abandoned).dropConn
      | .ok () =>
        let out := exchangeInner document utf8Error (.new id method params) (id + 1) control maxHost script.dispatch
          script.moments a link.log
        let link := { link with conn := some ⟨a.key, out.io⟩, log := out.log }
        match out.result, script.restore with
        | none, _ => ⟨none, link, out.frames, [], none⟩
        | some _, .error reason =>
          ⟨some (.error (Temporal.unverified reason)), (link.note a.key .abandoned).dropConn, out.frames, [], none⟩
        | some (.error e), .ok () => ⟨some (.error e), (link.note a.key .abandoned).dropConn, out.frames, [], none⟩
        | some (.ok terminal), .ok () => ⟨some terminal.result, link, out.frames, [], none⟩

/-! ## Runs -/

inductive LinkOp where
  /-- a client is admitted -/
  | adopt (arrivals : List Arrival)
  /-- `prepare_reconnect` -/
  | dropConn
  | ordinary (method : String) (params : Json) (observed : Bool) (control : Option (Option AbortRequest))
      (script : BoundedScript)
  | temporal (method : String) (params : Json) (control : ProgressCallControl) (maxHost : ℕ)
      (script : TemporalScript)

/-- One call: its request, the connection it was made on, and how it went. -/
structure CallRecord where
  temporal : Bool
  request : Request
  key : Option ℕ
  answered : Answered

def LinkOp.perform (link : TcpLink) : LinkOp → TcpLink × List CallRecord
  | .adopt arrivals => (link.adopt arrivals, [])
  | .dropConn => (link.dropConn, [])
  | .ordinary method params observed control script =>
    let answered := ordinaryCall document utf8Error method params observed control script link
    (answered.link, [⟨false, .new link.nextId method params, link.conn.map Attachment.key, answered⟩])
  | .temporal method params control maxHost script =>
    let answered := temporalCall document utf8Error method params control maxHost script link
    (answered.link, [⟨true, .new link.nextId method params, link.conn.map Attachment.key, answered⟩])

/-- The link after a sequence of operations, with the calls in order. -/
def run : TcpLink → List LinkOp → TcpLink × List CallRecord
  | link, [] => (link, [])
  | link, op :: ops =>
    let (link, calls) := op.perform document utf8Error link
    let (link, later) := run link ops
    (link, calls ++ later)

end codec

end Emucap.Live.Tcp
