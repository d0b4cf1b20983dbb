import Emucap.Lib.Stateful
import Emucap.Lib.Hex

/-!
# The GDB remote serial protocol client

`GdbRspClient` of `src/gdb_rsp.rs` with its socket, which is open to any peer: what the calls do and what the clock
shows is fixed in advance. `sent`, `received` and `reads` are no part of the source.
-/

namespace Emucap.GdbRsp

open Emucap.Lib

/-! ## Errors -/

inductive ErrorKind where
  | interrupted
  | wouldBlock
  | timedOut
  | unexpectedEof
  | writeZero
  | invalidData
  | invalidInput
  | connectionReset
  | brokenPipe
  | notConnected
  | other
  deriving DecidableEq

def ErrorKind.debug : ErrorKind → String
  | .interrupted => "Interrupted"
  | .wouldBlock => "WouldBlock"
  | .timedOut => "TimedOut"
  | .unexpectedEof => "UnexpectedEof"
  | .writeZero => "WriteZero"
  | .invalidData => "InvalidData"
  | .invalidInput => "InvalidInput"
  | .connectionReset => "ConnectionReset"
  | .brokenPipe => "BrokenPipe"
  | .notConnected => "NotConnected"
  | .other => "Other"

/-- `std::io::Error` with the text it displays. -/
structure IoError where
  kind : ErrorKind
  message : String
  deriving DecidableEq

inductive GdbError where
  | emulator (message : String)
  | poisoned
  | io (error : IoError)
  deriving DecidableEq

/-- Nanoseconds. -/
abbrev Duration := ℕ

def fractionText (width fraction : ℕ) : String :=
  let digits := (Nat.toDigits 10 fraction).leftpad width '0'
  match digits.rdropWhile (· == '0') with
  | [] => ""
  | kept => "." ++ String.ofList kept

/-- `{:?}` of a `Duration`. -/
def Duration.debug (d : Duration) : String :=
  if 1000000000 ≤ d then s!"{d / 1000000000}{fractionText 9 (d % 1000000000)}s"
  else if 1000000 ≤ d then s!"{d / 1000000}{fractionText 6 (d % 1000000)}ms"
  else if 1000 ≤ d then s!"{d / 1000}{fractionText 3 (d % 1000)}µs"
  else s!"{d}ns"

def debugTimeout : Option Duration → String
  | none => "None"
  | some d => "Some(" ++ Duration.debug d ++ ")"

/-- `{:?}` of what restoring a timeout returned. -/
def debugRestored : Except IoError Unit → String
  | .ok _ => "Ok(())"
  | .error e => "Err(Custom \x7b kind: " ++ e.kind.debug ++ ", error: " ++ e.message.quote ++ " \x7d)"

/-! ## The socket and the client -/

/-- What a `read` finds: bytes (none once the peer has closed), or an error. -/
inductive Arrival where
  | bytes (chunk : List UInt8)
  | fails (error : IoError)
  deriving DecidableEq

/-- What a `write` does: it takes up to `count` bytes, or fails. -/
inductive Acceptance where
  | takes (count : ℕ)
  | fails (error : IoError)
  deriving DecidableEq

/-- After the listed calls the peer has closed, every write takes all bytes and every option call succeeds. -/
structure Stream where
  arrivals : List Arrival
  accepts : List Acceptance
  options : List (Option IoError)
  clock : ℕ → ℕ
  ticks : ℕ
  readTimeout : Option Duration
  writeTimeout : Option Duration
  nonblocking : Bool
  shut : Bool
  sent : List UInt8
  received : List UInt8
  reads : List Bool

structure GdbRspClient where
  stream : Stream
  buf : List UInt8
  poisoned : Bool
  ioDeadline : Option ℕ
  timeout : Duration

abbrev IoM := EStateM IoError GdbRspClient

abbrev GdbM := EStateM GdbError GdbRspClient

def maxRspPayloadBytes : ℕ := 8 * 1024 * 1024

def maxRspPrefixBytes : ℕ := 64 * 1024

/-- The bytes of `$`, `#`, `+`, `-` and of the escape. -/
def packetStart : UInt8 := 36
def packetEnd : UInt8 := 35
def ackByte : UInt8 := 43
def nackByte : UInt8 := 45
def escapeByte : UInt8 := 125

/-! ## Calls on the socket -/

def onStream (f : Stream → Stream) : IoM Unit := modify fun c => { c with stream := f c.stream }

def instantNow {ε : Type} : EStateM ε GdbRspClient ℕ := do
  let c ← get
  modify fun c => { c with stream := { c.stream with ticks := c.stream.ticks + 1 } }
  return c.stream.clock c.stream.ticks

def optionCall : IoM Unit := do
  let c ← get
  match c.stream.options with
  | [] => pure ()
  | none :: later => onStream ({ · with options := later })
  | some e :: later => do
    onStream ({ · with options := later })
    throw e

def getReadTimeout : IoM (Option Duration) := do
  optionCall
  return (← get).stream.readTimeout

def getWriteTimeout : IoM (Option Duration) := do
  optionCall
  return (← get).stream.writeTimeout

def zeroTimeout : IoError := ⟨.invalidInput, "cannot set a 0 duration timeout"⟩

def setReadTimeout (timeout : Option Duration) : IoM Unit := do
  if timeout = some 0 then throw zeroTimeout
  optionCall
  onStream ({ · with readTimeout := timeout })

def setWriteTimeout (timeout : Option Duration) : IoM Unit := do
  if timeout = some 0 then throw zeroTimeout
  optionCall
  onStream ({ · with writeTimeout := timeout })

def setNonblocking (mode : Bool) : IoM Unit := do
  optionCall
  onStream ({ · with nonblocking := mode })

def chunkSize : ℕ := 4096

def unread (chunk : List UInt8) (later : List Arrival) : List Arrival :=
  if chunk.length ≤ chunkSize then later else .bytes (chunk.drop chunkSize) :: later

/-- One `read` into a buffer of 4096 bytes. -/
def streamRead : IoM (List UInt8) := do
  onStream fun s => { s with reads := s.reads ++ [s.nonblocking] }
  let c ← get
  match c.stream.arrivals with
  | [] => pure []
  | .fails e :: later => do
    onStream ({ · with arrivals := later })
    throw e
  | .bytes chunk :: later => do
    onStream fun s => { s with
      arrivals := unread chunk later, received := s.received ++ chunk.take chunkSize }
    return chunk.take chunkSize

/-- `map_err` that puts a text before the error's. -/
def explain {α : Type} (text : String) (x : IoM α) : IoM α := fun c =>
  match x c with
  | .ok a c => .ok a c
  | .error e c => .error ⟨e.kind, text ++ ": " ++ e.message⟩ c

@[simp] theorem wp_explain {α : Type} {text : String} {x : IoM α} {Q : α → GdbRspClient → Prop}
    {E : IoError → GdbRspClient → Prop} {c : GdbRspClient} :
    wp (explain text x) Q E c ↔ wp x Q (fun e => E ⟨e.kind, text ++ ": " ++ e.message⟩) c := by
  unfold wp explain
  cases x c with
  | ok a t => rfl
  | error e t => rfl

def connectionClosed : IoError := ⟨.unexpectedEof, "GDB connection closed"⟩

/-! ## Bytes and packets -/

def checksum (payload : List UInt8) : UInt8 := payload.foldl (· + ·) 0

def frame (payload : String) : List UInt8 :=
  packetStart :: utf8 payload ++ packetEnd :: (hexDigits (checksum (utf8 payload))).map fun c => c.toNat.toUInt8

def deadlineExpired : IoError := ⟨.timedOut, "GDB exchange deadline expired"⟩

def remainingBudget : IoM (Option Duration) := do
  match (← get).ioDeadline with
  | none => pure none
  | some deadline => do
    let now ← instantNow
    if now < deadline then return some (deadline - now)
    throw deadlineExpired

def limitWrite : IoM Unit := do
  match ← remainingBudget with
  | none => pure ()
  | some remaining =>
    explain ("GDB write timeout " ++ Duration.debug remaining) (setWriteTimeout (some remaining))

def recordSent (bytes : List UInt8) : IoM Unit := onStream fun s => { s with sent := s.sent ++ bytes }

def writing : List Acceptance → List UInt8 → IoM Unit
  | _, [] => pure ()
  | [], b :: bytes => do
    limitWrite
    recordSent (b :: bytes)
  | .takes 0 :: later, _ :: _ => do
    limitWrite
    onStream ({ · with accepts := later })
    throw ⟨.writeZero, "write zero"⟩
  | .takes (n + 1) :: later, b :: bytes => do
    limitWrite
    onStream ({ · with accepts := later })
    recordSent ((b :: bytes).take (n + 1))
    writing later ((b :: bytes).drop (n + 1))
  | .fails e :: later, b :: bytes => do
    limitWrite
    onStream ({ · with accepts := later })
    if e.kind = .interrupted then writing later (b :: bytes) else throw e

def writeBytes (bytes : List UInt8) : IoM Unit := do
  writing (← get).stream.accepts bytes

def limitRead : Option Duration → IoM Unit
  | none => pure ()
  | some remaining =>
    explain ("GDB read timeout " ++ Duration.debug remaining) (setReadTimeout (some remaining))

def readByte : IoM UInt8 := do
  let remaining ← remainingBudget
  match (← get).buf with
  | b :: rest => do
    modify ({ · with buf := rest })
    return b
  | [] => do
    limitRead remaining
    match ← streamRead with
    | [] => throw connectionClosed
    | b :: rest => do
      modify ({ · with buf := rest })
      return b

def payloadTooLong : IoError := ⟨.invalidData, "GDB payload exceeds 8 MiB"⟩

/-- The `attempts` bytes `write_packet` reads for an acknowledgement. -/
def awaitAck (sent : List UInt8) : ℕ → IoM Unit
  | 0 => throw ⟨.timedOut, "GDB packet was not acknowledged"⟩
  | attempts + 1 => do
    let b ← readByte
    if b = ackByte then pure ()
    else if b = nackByte then do
      writeBytes sent
      awaitAck sent attempts
    else if b = packetStart then modify fun c => { c with buf := packetStart :: c.buf }
    else awaitAck sent attempts

def writePacket (payload : String) : IoM Unit := do
  if maxRspPayloadBytes < (utf8 payload).length then throw payloadTooLong
  writeBytes (frame payload)
  awaitAck (frame payload) 8

def prefixTooLong : IoError := ⟨.invalidData, "GDB framing prefix exceeds byte limit"⟩

/-- Reads up to `$`; `left` other bytes may still come before it. -/
def seekStart : ℕ → IoM Unit
  | 0 => do
    if (← readByte) ≠ packetStart then throw prefixTooLong
  | left + 1 => do
    if (← readByte) ≠ packetStart then seekStart left

/-- Reads up to `#`; `left` bytes of payload may still come before it. -/
def readPayload : ℕ → IoM (List UInt8)
  | 0 => do
    if (← readByte) = packetEnd then return []
    throw payloadTooLong
  | left + 1 => do
    let b ← readByte
    if b = packetEnd then return []
    return b :: (← readPayload left)

def hexByte (b : UInt8) : Option ℕ := hexValue (Char.ofNat b.toNat)

/-- `u8::from_str_radix(_, 16)` on two bytes, which may begin with a plus sign. -/
def parseChecksum (c0 c1 : UInt8) : Option UInt8 :=
  if c0 = ackByte then (hexByte c1).map (·.toUInt8)
  else do
    let high ← hexByte c0
    let low ← hexByte c1
    return (16 * high + low).toUInt8

def unescape : List UInt8 → List UInt8
  | [] => []
  | [b] => [b]
  | b :: escaped :: rest =>
    if b = escapeByte then (escaped ^^^ 32) :: unescape rest else b :: unescape (escaped :: rest)

def isContinuation (b : UInt8) : Bool := 128 ≤ b && b ≤ 191

/-- The range of the second byte of a character of three or four bytes. -/
def secondByte (b0 b1 : UInt8) : Bool :=
  if b0 = 0xe0 then 0xa0 ≤ b1 && b1 ≤ 0xbf
  else if b0 = 0xed then 0x80 ≤ b1 && b1 ≤ 0x9f
  else if b0 = 0xf0 then 0x90 ≤ b1 && b1 ≤ 0xbf
  else if b0 = 0xf4 then 0x80 ≤ b1 && b1 ≤ 0x8f
  else isContinuation b1

def replacement : Char := Char.ofNat 0xfffd

def low6 (b : UInt8) : ℕ := b.toNat % 64

/-- `String::from_utf8_lossy`: each longest beginning of a character that does not go on is replaced. -/
def lossyChars : List UInt8 → List Char
  | [] => []
  | b0 :: rest =>
    if b0 < 0x80 then Char.ofNat b0.toNat :: lossyChars rest
    else if 0xc2 ≤ b0 ∧ b0 ≤ 0xdf then
      match rest with
      | [] => [replacement]
      | b1 :: more =>
        if isContinuation b1 then Char.ofNat (b0.toNat % 32 * 64 + low6 b1) :: lossyChars more
        else replacement :: lossyChars (b1 :: more)
    else if 0xe0 ≤ b0 ∧ b0 ≤ 0xef then
      match rest with
      | [] => [replacement]
      | [b1] => if secondByte b0 b1 then [replacement] else replacement :: lossyChars [b1]
      | b1 :: b2 :: more =>
        if ¬ secondByte b0 b1 then replacement :: lossyChars (b1 :: b2 :: more)
        else if isContinuation b2 then
          Char.ofNat ((b0.toNat % 16 * 64 + low6 b1) * 64 + low6 b2) :: lossyChars more
        else replacement :: lossyChars (b2 :: more)
    else if 0xf0 ≤ b0 ∧ b0 ≤ 0xf4 then
      match rest with
      | [] => [replacement]
      | [b1] => if secondByte b0 b1 then [replacement] else replacement :: lossyChars [b1]
      | [b1, b2] =>
        if ¬ secondByte b0 b1 then replacement :: lossyChars [b1, b2]
        else if isContinuation b2 then [replacement] else replacement :: lossyChars [b2]
      | b1 :: b2 :: b3 :: more =>
        if ¬ secondByte b0 b1 then replacement :: lossyChars (b1 :: b2 :: b3 :: more)
        else if ¬ isContinuation b2 then replacement :: lossyChars (b2 :: b3 :: more)
        else if isContinuation b3 then
          Char.ofNat (((b0.toNat % 8 * 64 + low6 b1) * 64 + low6 b2) * 64 + low6 b3) :: lossyChars more
        else replacement :: lossyChars (b3 :: more)
    else replacement :: lossyChars rest

def packetText (raw : List UInt8) : String := String.ofList (lossyChars (unescape raw))

def checksumMismatch : IoError := ⟨.invalidData, "GDB packet checksum mismatch"⟩

/-- `let _ = x`. -/
def ignoring {ε α : Type} (x : EStateM ε GdbRspClient α) : EStateM ε GdbRspClient Unit := do
  let _ ← attempt x

/-- The end of a packet: what is acknowledged, and what is returned. -/
def acknowledge (raw : List UInt8) (c0 c1 : UInt8) : IoM String := do
  if parseChecksum c0 c1 = some (checksum raw) then do
    writeBytes [ackByte]
    return packetText raw
  else do
    ignoring (writeBytes [nackByte])
    throw checksumMismatch

def readPacket : IoM String := do
  seekStart maxRspPrefixBytes
  let raw ← readPayload maxRspPayloadBytes
  let c0 ← readByte
  let c1 ← readByte
  acknowledge raw c0 c1

/-! ## The poll -/

def hasCompleteBufferedPacket (buf : List UInt8) : Bool :=
  match buf.dropWhile (· ≠ packetStart) with
  | [] => false
  | _ :: body =>
    match body.dropWhile (· ≠ packetEnd) with
    | _ :: _ :: _ :: _ => true
    | _ => false

/-- The error of `check_pending_packet_size`. -/
def pendingPacketError (buf : List UInt8) : Option IoError :=
  if maxRspPrefixBytes < (buf.takeWhile (· ≠ packetStart)).length then some prefixTooLong
  else if maxRspPayloadBytes + 4 < buf.length then
    some ⟨.invalidData, "GDB incomplete packet exceeds 8 MiB payload budget"⟩
  else none

def checkPendingPacketSize : IoM Unit := do
  match pendingPacketError (← get).buf with
  | none => pure ()
  | some e => throw e

/-- The read of a poll: without bytes to read it is no failure. -/
def pollRead : IoM Unit := do
  match ← attempt streamRead with
  | .ok [] => throw connectionClosed
  | .ok chunk => modify fun c => { c with buf := c.buf ++ chunk }
  | .error e => if e.kind = .wouldBlock then pure () else throw e

def ofResult {ε α : Type} : Except ε α → EStateM ε GdbRspClient α
  | .ok a => pure a
  | .error e => throw e

def decodeBuffered : IoM (Option String) := do
  if hasCompleteBufferedPacket (← get).buf then return some (← readPacket)
  checkPendingPacketSize
  return none

def recvNonblockingPacket : IoM (Option String) := do
  if hasCompleteBufferedPacket (← get).buf then return some (← readPacket)
  checkPendingPacketSize
  let previous ← getReadTimeout
  setNonblocking true
  let read ← attempt pollRead
  setNonblocking false
  explain ("GDB poll restore timeout " ++ debugTimeout previous) (setReadTimeout previous)
  ofResult read
  decodeBuffered

/-! ## Budgets and poisoning -/

def liftIo {α : Type} (x : IoM α) : GdbM α := fun c =>
  match x c with
  | .ok a c => .ok a c
  | .error e c => .error (.io e) c

@[simp] theorem wp_liftIo {α : Type} {x : IoM α} {Q : α → GdbRspClient → Prop}
    {E : GdbError → GdbRspClient → Prop} {c : GdbRspClient} :
    wp (liftIo x) Q E c ↔ wp x Q (fun e => E (.io e)) c := by
  unfold wp liftIo
  cases x c with
  | ok a t => rfl
  | error e t => rfl

def ensureUsable : GdbM Unit := do
  if (← get).poisoned then throw .poisoned

def poison : GdbM Unit := modify ({ · with poisoned := true })

def finishIo {α : Type} (x : IoM α) : GdbM α := do
  match ← attempt (liftIo x) with
  | .ok a => return a
  | .error e => do
    poison
    throw e

/-- Seconds of an `Instant` are signed 64-bit numbers. -/
def instantLimit : ℕ := 2 ^ 63 * 1000000000

def deadlineAfter (now : ℕ) (budget : Duration) : Option ℕ :=
  if 0 < budget ∧ now + budget < instantLimit then some (now + budget) else none

def cleanupError (primary : GdbError) (restoreRead restoreWrite : Except IoError Unit) : GdbError :=
  match restoreRead, restoreWrite with
  | .ok _, .ok _ => primary
  | _, _ =>
    let cleanup := "timeout restoration: read=" ++ debugRestored restoreRead ++
      ", write=" ++ debugRestored restoreWrite
    match primary with
    | .io e => .io ⟨e.kind, e.message ++ "; " ++ cleanup⟩
    | .emulator message => .emulator (message ++ "; " ++ cleanup)
    | .poisoned => .poisoned

def isError {ε α : Type} : Except ε α → Bool
  | .ok _ => false
  | .error _ => true

def setIoDeadline (deadline : Option ℕ) : GdbM Unit := modify ({ · with ioDeadline := deadline })

def ioResult {α : Type} : Except IoError α → GdbM α
  | .ok a => pure a
  | .error e => throw (.io e)

/-- What `bounded` returns after the timeouts are back. -/
def boundedResult {α : Type} (result : Except GdbError α) (elapsed : Except IoError (Option Duration))
    (restoreRead restoreWrite : Except IoError Unit) : GdbM α :=
  match result with
  | .error primary => throw (cleanupError primary restoreRead restoreWrite)
  | .ok a => do
    ioResult restoreRead
    ioResult restoreWrite
    let _ ← ioResult elapsed
    return a

def shutdown : GdbM Unit := modify fun c => { c with stream := { c.stream with shut := true } }

def restoreBudget {α : Type} (previous : Option ℕ) (readTimeout writeTimeout : Option Duration)
    (result : Except GdbError α) : GdbM α := do
  let elapsed ← liftIo (attempt remainingBudget)
  setIoDeadline previous
  let restoreRead ← liftIo (attempt (explain ("GDB restore read timeout " ++ debugTimeout readTimeout)
    (setReadTimeout readTimeout)))
  let restoreWrite ← liftIo (attempt (explain ("GDB restore write timeout " ++ debugTimeout writeTimeout)
    (setWriteTimeout writeTimeout)))
  if isError result || isError elapsed || isError restoreRead || isError restoreWrite then do
    poison
    shutdown
  boundedResult result elapsed restoreRead restoreWrite

/-- The earlier of a new deadline and the one around it. -/
def innerDeadline (previous : Option ℕ) (deadline : ℕ) : ℕ :=
  match previous with
  | none => deadline
  | some outer => min outer deadline

def underDeadline {α : Type} (deadline : ℕ) (readTimeout writeTimeout : Option Duration) (operation : GdbM α) :
    GdbM α := do
  let previous := (← get).ioDeadline
  setIoDeadline (some (innerDeadline previous deadline))
  let result ← attempt operation
  restoreBudget previous readTimeout writeTimeout result

def bounded {α : Type} (budget : Duration) (operation : GdbM α) : GdbM α := do
  ensureUsable
  match deadlineAfter (← instantNow) budget with
  | none => throw (.emulator "invalid GDB exchange budget")
  | some deadline => do
    let readTimeout ← liftIo getReadTimeout
    let writeTimeout ← liftIo getWriteTimeout
    underDeadline deadline readTimeout writeTimeout operation

def withBudget {α : Type} (operation : GdbM α) : GdbM α := do
  let c ← get
  match c.ioDeadline with
  | none => bounded c.timeout operation
  | some _ => operation

/-! ## The operations -/

def send (payload : String) : GdbM String := withBudget do
  ensureUsable
  finishIo do
    writePacket payload
    readPacket

def sendWithTimeout (payload : String) (budget : Duration) : GdbM String := bounded budget (send payload)

def sendNoReply (payload : String) : GdbM Unit := withBudget do
  ensureUsable
  finishIo (writePacket payload)

def sendNoReplyWithTimeout (payload : String) (budget : Duration) : GdbM Unit :=
  bounded budget (sendNoReply payload)

def recvReply : GdbM String := withBudget do
  ensureUsable
  finishIo readPacket

def recvReplyWithTimeout (budget : Duration) : GdbM String := bounded budget recvReply

def interruptByte : UInt8 := 3

def requestInterruptWithTimeout (budget : Duration) : GdbM Unit :=
  bounded budget (liftIo (writeBytes [interruptByte]))

def interrupt : GdbM String := withBudget do
  ensureUsable
  finishIo (writeBytes [interruptByte])
  recvReply

def interruptWithTimeout (budget : Duration) : GdbM String := bounded budget interrupt

def recvNonblocking : GdbM (Option String) := withBudget do
  ensureUsable
  finishIo recvNonblockingPacket

def recvNonblockingWithTimeout (budget : Duration) : GdbM (Option String) := bounded budget recvNonblocking

/-! ## Calls one after the other -/

inductive Operation where
  | send (payload : String)
  | sendWithTimeout (payload : String) (budget : Duration)
  | sendNoReply (payload : String)
  | sendNoReplyWithTimeout (payload : String) (budget : Duration)
  | recvReply
  | recvReplyWithTimeout (budget : Duration)
  | interrupt
  | interruptWithTimeout (budget : Duration)
  | requestInterruptWithTimeout (budget : Duration)
  | recvNonblocking
  | recvNonblockingWithTimeout (budget : Duration)

/-- The packet an operation returns, if it returns one. -/
def perform : Operation → GdbM (Option String)
  | .send payload => some <$> send payload
  | .sendWithTimeout payload budget => some <$> sendWithTimeout payload budget
  | .sendNoReply payload => (fun _ => none) <$> sendNoReply payload
  | .sendNoReplyWithTimeout payload budget => (fun _ => none) <$> sendNoReplyWithTimeout payload budget
  | .recvReply => some <$> recvReply
  | .recvReplyWithTimeout budget => some <$> recvReplyWithTimeout budget
  | .interrupt => some <$> interrupt
  | .interruptWithTimeout budget => some <$> interruptWithTimeout budget
  | .requestInterruptWithTimeout budget => (fun _ => none) <$> requestInterruptWithTimeout budget
  | .recvNonblocking => recvNonblocking
  | .recvNonblockingWithTimeout budget => recvNonblockingWithTimeout budget

/-- One call: the client before and after it, and what it returned. -/
structure Call where
  earlier : GdbRspClient
  result : Except GdbError (Option String)
  later : GdbRspClient

def call (op : Operation) (c : GdbRspClient) : Call :=
  match perform op c with
  | .ok reply c' => ⟨c, .ok reply, c'⟩
  | .error e c' => ⟨c, .error e, c'⟩

def calls : List Operation → GdbRspClient → List Call
  | [], _ => []
  | op :: ops, c => call op c :: calls ops (call op c).later

end Emucap.GdbRsp
