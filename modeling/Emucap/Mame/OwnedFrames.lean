import Emucap.InputMovie
import Emucap.Lib.Json
import Emucap.Lib.Scripted

/-!
# Owned frame operations of MAME

`mame_owned_frames.rs`: an operation of so many frames is begun, polled until its reply is terminal, cancelled on the
way if the request is cancelled or its deadline passes, and finished. The host that the commands go to, the clock and
the cancellation are scripted.
-/

namespace Emucap.Mame

open Emucap.Lib
open Emucap.InputMovie (parseU64)

/-! ## Replies -/

inductive Phase where
  | running
  | stopping
  | completed
  | interrupted
  deriving DecidableEq

def Phase.text : Phase → String
  | .running => "running"
  | .stopping => "stopping"
  | .completed => "completed"
  | .interrupted => "interrupted"

def Phase.ofText (text : List Char) : Option Phase :=
  [Phase.running, .stopping, .completed, .interrupted].find? (·.text.toList = text)

inductive Reason where
  | none
  | cancelled
  | hostDeadline
  | nativeStop
  deriving DecidableEq

def Reason.text : Reason → String
  | .none => "none"
  | .cancelled => "cancelled"
  | .hostDeadline => "host_deadline"
  | .nativeStop => "native_stop"

def Reason.ofText (text : List Char) : Option Reason :=
  [Reason.none, .cancelled, .hostDeadline, .nativeStop].find? (·.text.toList = text)

structure FrameReply where
  phase : Phase
  completed : ℕ
  requested : ℕ
  reason : Reason
  deriving DecidableEq

/-- What the phase says about the count and the reason. -/
def FrameReply.Agrees (reply : FrameReply) : Prop :=
  reply.completed ≤ reply.requested ∧
    (reply.phase = .completed → reply.completed = reply.requested ∧ reply.reason = .none) ∧
    (reply.phase = .running → reply.reason = .none) ∧ (reply.phase = .interrupted → reply.reason ≠ .none)

instance (reply : FrameReply) : Decidable reply.Agrees := by
  unfold FrameReply.Agrees
  infer_instance

def FrameReply.parse (raw id : String) (requested : ℕ) : Option FrameReply :=
  match raw.toList.splitOn '|' with
  | [tag, owner, phase, completed, count, reason] => do
    guard (tag = "FRAME".toList ∧ owner = id.toList)
    let completed ← parseU64 completed
    let count ← parseU64 count
    let reply : FrameReply := ⟨← Phase.ofText phase, completed, count, ← Reason.ofText reason⟩
    guard (count = requested ∧ reply.Agrees)
    return reply
  | _ => none

def FrameReply.terminal (reply : FrameReply) : Bool :=
  match reply.phase with
  | .completed | .interrupted => true
  | .running | .stopping => false

/-! ## The surroundings -/

def milliseconds (n : ℕ) : ℕ := n * 1000000

def exchangeBudget : ℕ := milliseconds 2000

inductive Answer (ε : Type) where
  | now (instant : ℕ)
  /-- when the request was cancelled, if it was -/
  | cancellation (instant : Option ℕ)
  | exchange (result : Except ε String)

def Answer.now? {ε : Type} : Answer ε → Option ℕ
  | .now instant => some instant
  | _ => none

def Answer.cancellation? {ε : Type} : Answer ε → Option (Option ℕ)
  | .cancellation instant => some instant
  | _ => none

def Answer.exchange? {ε : Type} : Answer ε → Option (Except ε String)
  | .exchange result => some result
  | _ => none

/-- What is done to the host. -/
inductive Deed (ε : Type) where
  | exchanged (name argument : String) (budget : ℕ) (result : Except ε String)
  | setFrozen (frozen : Bool)

abbrev Owned (ε : Type) := Scripted ε (Answer ε) Unit (Deed ε)

/-- `H::error`, and the conversion of a `GdbError::Emulator`. -/
structure Errors (ε : Type) where
  error : String → ε
  emulator : String → ε

/-! ## The operation -/

section operation
variable {ε : Type} (errors : Errors ε)

def exchange (name argument : String) (budget : ℕ) : Owned ε String := do
  let result ← ask Answer.exchange?
  note (.exchanged name argument budget result)
  match result with
  | .ok raw => pure raw
  | .error error => refuse error

def exchangeUntil (name argument : String) (deadline : ℕ) : Owned ε String := do
  let now ← ask Answer.now?
  if now < deadline then exchange name argument (min (deadline - now) exchangeBudget)
  else refuse (errors.error "native frame exchange deadline expired")

variable (id : String) (count : ℕ)

/-- An exchange whose answer is a reply to this operation. -/
def exchangeReply (name argument : String) (deadline : ℕ) : Owned ε FrameReply := do
  let raw ← exchangeUntil errors name argument deadline
  match FrameReply.parse raw id count with
  | some reply => pure reply
  | none => refuse (errors.emulator "unverified owned frame response")

/-- Whether there is a stop deadline and it has passed. -/
def stopExpired : Option ℕ → Owned ε Bool
  | none => pure false
  | some deadline => do return decide (deadline ≤ (← ask Answer.now?))

/-- The value of an operation that has ended; its members are in the order of their names. -/
def frameValue (reply : FrameReply) (reason : Reason) (frame : ℕ) : Json :=
  .obj ([("completed", .nat reply.completed), ("count", .nat count), ("frame", .nat frame), ("frames", .nat count),
      ("native_operation_id", .str id)] ++
    (if reason = .none then [] else [("reason", .str reason.text)]) ++
    [("state", .str "frozen"), ("status", .str reply.phase.text), ("unit", .str "frames")])

/-- Releases the operation once its reply is terminal. -/
def finish (deadline : ℕ) (reply : FrameReply) (stop : Option ℕ) (hostDeadline : Bool) : Owned ε Json := do
  let finished ← exchangeReply errors id count "framefinish" id (stop.getD deadline)
  if finished ≠ reply then refuse (errors.error "native frame terminal changed before ownership release")
  else do
    let raw ← exchangeUntil errors "frame" "" (stop.getD deadline)
    match parseU64 raw.toList with
    | none => refuse (errors.error "invalid native terminal frame clock")
    | some frame =>
      if ← stopExpired stop then refuse (errors.error "native frame cleanup exceeded stop deadline")
      else do
        note (.setFrozen true)
        return frameValue id count reply
          (if hostDeadline ∧ reply.reason = .cancelled then .hostDeadline else reply.reason) frame

/-- Whether the operation is to stop: the request is cancelled, or the deadline has passed. It is cancelled once. -/
def observeStop (deadline : ℕ) (reply : FrameReply) (stop : Option ℕ) (hostDeadline : Bool) :
    Owned ε (FrameReply × Option ℕ × Bool) := do
  let now ← ask Answer.now?
  match stop with
  | some _ => pure (reply, stop, hostDeadline)
  | none =>
    let cancelled ← ask Answer.cancellation?
    if cancelled.isSome ∨ deadline ≤ now then do
      let cancelledAt ← ask Answer.cancellation?
      let stop := cancelledAt.getD now + milliseconds 2500
      let cancelled ← exchangeReply errors id count "framecancel" id stop
      if cancelled.completed < reply.completed then refuse (errors.error "native cancel progress moved backwards")
      else pure (cancelled, some stop, decide (deadline ≤ now))
    else pure (reply, stop, hostDeadline)

def rounds (deadline : ℕ) : ℕ → FrameReply → Option ℕ → (hostDeadline : Bool) → Owned ε Json
  | 0, _, _, _ => throw .unfinished
  | n + 1, reply, stop, hostDeadline => do
    let (reply, stop, hostDeadline) ← observeStop errors id count deadline reply stop hostDeadline
    if ← stopExpired stop then refuse (errors.error "native frame cancellation stop deadline expired")
    else if reply.terminal then finish errors id count deadline reply stop hostDeadline
    else if ← stopExpired stop then refuse (errors.error "native frame cancellation stop deadline expired")
    else do
      let next ← exchangeReply errors id count "framepoll" id (stop.getD deadline)
      if next.completed < reply.completed then refuse (errors.error "native frame progress moved backwards")
      else do
        note (.setFrozen next.terminal)
        rounds deadline n next stop hostDeadline

def run (maxRounds : ℕ) : Owned ε Json := do
  let start ← ask Answer.now?
  let deadline := start + milliseconds 240000
  let reply ← exchangeReply errors id count "framebegin" (id ++ ":" ++ toString count ++ ":240000") deadline
  if reply.phase ≠ .running ∨ reply.completed ≠ 0 then
    refuse (errors.error "native frame admission did not identify a new operation")
  else do
    note (.setFrozen false)
    rounds errors id count deadline maxRounds reply none false

end operation

end Emucap.Mame
