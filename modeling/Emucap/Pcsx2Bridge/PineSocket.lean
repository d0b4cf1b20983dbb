import Emucap.Lib.ByteFields
import Emucap.Lib.Scripted

/-!
# The PINE socket

`PineSocket` of `transport.rs`: a request is written behind its length, and the reply is read behind its own. An
exchange that fails half way makes the socket terminal, so that nothing is written or read on it any more. The clock and
the stream are scripted; what goes over the stream is left in the trace.
-/

namespace Emucap.Pcsx2Bridge

open Emucap.Lib

inductive IoKind where
  | notConnected
  | timedOut
  | unexpectedEof
  | writeZero
  | interrupted
  | other
  deriving DecidableEq

structure IoError where
  kind : IoKind
  message : String
  deriving DecidableEq

inductive Pcsx2BridgeError where
  | cancelled
  | badParams (message : String)
  | emulator (message : String)
  | protocol (message : String)
  | io (error : IoError)
  deriving DecidableEq

/-- `Io` and `Protocol`: the stream may not be at the end of a message. -/
def Pcsx2BridgeError.breaksStream : Pcsx2BridgeError → Bool
  | .protocol _ | .io _ => true
  | _ => false

/-! ## The surroundings -/

/-- What the clock, the cancellation and the stream answer; instants are in nanoseconds. -/
inductive Answer where
  | now (instant : ℕ)
  /-- when the request was cancelled, if it was -/
  | cancellation (instant : Option ℕ)
  | timeouts (result : Except IoError Unit)
  | setTimeouts (result : Except IoError Unit)
  | write (result : Except IoError ℕ)
  | flush (result : Except IoError Unit)
  | read (result : Except IoError (List UInt8))

def Answer.now? : Answer → Option ℕ
  | .now instant => some instant
  | _ => none

def Answer.cancellation? : Answer → Option (Option ℕ)
  | .cancellation instant => some instant
  | _ => none

def Answer.timeouts? : Answer → Option (Except IoError Unit)
  | .timeouts result => some result
  | _ => none

def Answer.setTimeouts? : Answer → Option (Except IoError Unit)
  | .setTimeouts result => some result
  | _ => none

def Answer.write? : Answer → Option (Except IoError ℕ)
  | .write result => some result
  | _ => none

def Answer.flush? : Answer → Option (Except IoError Unit)
  | .flush result => some result
  | _ => none

def Answer.read? : Answer → Option (Except IoError (List UInt8))
  | .read result => some result
  | _ => none

inductive Deed where
  /-- bytes on the stream -/
  | wrote (bytes : List UInt8)
  | read (bytes : List UInt8)
  /-- an exchange of the bridge is begun -/
  | requested (opcode : UInt8) (body : List UInt8)
  /-- and has brought a reply in time -/
  | replied (opcode : UInt8) (reply : List UInt8)
  /-- an operation is admitted -/
  | admitted (id : ℕ)
  deriving DecidableEq

structure PineSocket where
  terminal : Bool
  ioDeadline : Option ℕ
  deriving DecidableEq

structure Bridge where
  controlUnverified : Bool
  nativeStopDeadline : Option ℕ
  ioDeadline : Option ℕ
  lastNativeId : ℕ
  lastNativeGeneration : ℕ
  deriving DecidableEq

structure Memory where
  socket : PineSocket
  bridge : Bridge
  deriving DecidableEq

abbrev Pine := Scripted Pcsx2BridgeError Answer Memory Deed

abbrev World := Traced (Scene Answer Memory) Deed

/-! ## The stream -/

def pineMaxReply : ℕ := 450000

def io {α : Type} (kind : IoKind) (message : String) : Pine α := refuse (.io ⟨kind, message⟩)

def orIo {α : Type} : Except IoError α → Pine α
  | .ok a => pure a
  | .error error => refuse (.io error)

def setTerminal (m : Memory) : Memory := { m with socket.terminal := true }

def setDeadline (deadline : Option ℕ) (m : Memory) : Memory := { m with socket.ioDeadline := deadline }

/-- Fails when there is a deadline and it has passed. -/
def remainingBudget : Pine Unit := do
  match (← memoryNow).socket.ioDeadline with
  | none => pure ()
  | some deadline =>
    let now ← ask Answer.now?
    if now < deadline then pure () else io .timedOut "PINE exchange deadline expired"

def prepareIo : Pine Unit := do
  remainingBudget
  if (← memoryNow).socket.ioDeadline.isSome then orIo (← ask Answer.setTimeouts?) else pure ()

def rounds : Pine ℕ := do return (← get).state.answers.length + 1

def readLoop : ℕ → (got : List UInt8) → (missing : ℕ) → Pine (List UInt8)
  | 0, _, _ => throw .unfinished
  | n + 1, got, missing =>
    if missing = 0 then pure got
    else do
      prepareIo
      match ← ask Answer.read? with
      | .ok bytes =>
        if bytes = [] then io .unexpectedEof "unexpected end of file"
        else do
          note (.read (bytes.take missing))
          readLoop n (got ++ bytes.take missing) (missing - bytes.length)
      | .error error => if error.kind = .interrupted then readLoop n got missing else refuse (.io error)

def readPacketBytes (count : ℕ) : Pine (List UInt8) := do readLoop (← rounds) [] count

def writeLoop : ℕ → List UInt8 → Pine Unit
  | 0, _ => throw .unfinished
  | n + 1, bytes =>
    if bytes = [] then pure ()
    else do
      prepareIo
      match ← ask Answer.write? with
      | .ok count =>
        if count = 0 then io .writeZero "write zero"
        else do
          note (.wrote (bytes.take count))
          writeLoop n (bytes.drop count)
      | .error error => if error.kind = .interrupted then writeLoop n bytes else refuse (.io error)

def writePacketBytes (bytes : List UInt8) : Pine Unit := do writeLoop (← rounds) bytes

/-! ## Exchanges -/

/-- The part of `transact` whose failures are looked at. -/
def exchangePacket (request : List UInt8) : Pine (List UInt8) :=
  if request.length + 4 < 2 ^ 32 then do
    writePacketBytes (littleEndian 4 (request.length + 4) ++ request)
    orIo (← ask Answer.flush?)
    let header ← readPacketBytes 5
    let length := field header 0 4
    if 5 ≤ length ∧ length ≤ pineMaxReply then do
      let payload ← readPacketBytes (length - 5)
      if header[4]? = some 0 then pure payload else refuse (.emulator "PCSX2 rejected the PINE command")
    else refuse (.protocol ("PINE reply length " ++ toString length ++ " is outside 5..=" ++ toString pineMaxReply))
  else refuse (.badParams "PINE request is too large")

/-- A failure that breaks the stream makes the socket terminal. -/
def transact (request : List UInt8) : Pine (List UInt8) := do
  if (← memoryNow).socket.terminal then io .notConnected "PINE transport is terminal"
  else do
    match ← outcome (exchangePacket request) with
    | .ok payload => pure payload
    | .error e =>
      if e.breaksStream then remember setTerminal else pure ()
      refuse e

def failed {α : Type} : Except Pcsx2BridgeError α → Bool
  | .ok _ => false
  | .error _ => true

def restoreTimeouts : Pine Unit := do orIo (← ask Answer.setTimeouts?)

def settleExchange (reply : Except Pcsx2BridgeError (List UInt8)) : Pine (List UInt8) := do
  let withinDeadline ← outcome remainingBudget
  remember (setDeadline none)
  let restored ← outcome restoreTimeouts
  if failed withinDeadline ∨ failed restored then remember setTerminal else pure ()
  orRefuse restored
  orRefuse withinDeadline
  orRefuse reply

def transactWithTimeout (request : List UInt8) (timeout : ℕ) : Pine (List UInt8) := do
  let now ← ask Answer.now?
  if timeout = 0 then refuse (.badParams "invalid PINE exchange budget")
  else do
    orIo (← ask Answer.timeouts?)
    remember (setDeadline (some (now + timeout)))
    settleExchange (← outcome (transact request))

end Emucap.Pcsx2Bridge
