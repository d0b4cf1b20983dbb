import Emucap.Lib.Json
import Emucap.Pcsx2Bridge.PineSocket

/-!
# Owned frame operations of PCSX2

`owned_frame.rs`: an operation is admitted with a receipt, polled, cancelled once if that is asked for, and finished.
Every receipt has to follow the one before it. A failure leaves the control unverified, and then the bridge sends
nothing more.
-/

namespace Emucap.Pcsx2Bridge

open Emucap.Lib

/-! ## Receipts -/

structure Receipt where
  id : ℕ
  generation : ℕ
  start : ℕ
  last : ℕ
  requested : ℕ
  count : ℕ
  phase : ℕ
  reason : ℕ
  deriving DecidableEq

/-- The condition of `parse` under which a receipt is consistent. -/
def Receipt.Consistent (r : Receipt) (requested : ℕ) : Prop :=
  r.id ≠ 0 ∧ r.generation ≠ 0 ∧ r.requested = requested ∧ r.phase ≤ 5 ∧ r.reason ≤ 3 ∧ r.count ≤ r.requested ∧
    ¬ (requested = 0 ∧ (r.phase = 1 ∨ r.phase = 2)) ∧ (r.start ≤ r.last ∧ r.last - r.start = r.count) ∧
    (r.phase = 0 → r.start = 0 ∧ r.last = 0 ∧ r.reason = 0) ∧ (3 ≤ r.phase → (r.reason = 0 ↔ r.count = r.requested))

instance (r : Receipt) (requested : ℕ) : Decidable (r.Consistent requested) := by
  unfold Receipt.Consistent
  infer_instance

def Receipt.ofBytes (bytes : List UInt8) : Receipt :=
  ⟨field bytes 0 8, field bytes 8 8, field bytes 16 8, field bytes 24 8, field bytes 32 4, field bytes 36 4,
    field bytes 40 4, field bytes 44 4⟩

def Receipt.parse (bytes : List UInt8) (requested : ℕ) : Except Pcsx2BridgeError Receipt :=
  if bytes.length ≠ 48 then .error (.protocol "invalid native frame receipt size")
  else if (Receipt.ofBytes bytes).phase = 6 then
    .error (.emulator ("native frame owner fault: " ++ toString (Receipt.ofBytes bytes).reason))
  else if (Receipt.ofBytes bytes).Consistent requested then .ok (Receipt.ofBytes bytes)
  else .error (.protocol "inconsistent native frame receipt")

/-- `follows`: the receipt is a later one of the same operation. -/
def Receipt.Follows (r previous : Receipt) : Prop :=
  r.id = previous.id ∧ r.generation = previous.generation ∧ r.requested = previous.requested ∧
    previous.phase ≤ r.phase ∧ previous.count ≤ r.count ∧ (previous.phase ≠ 0 → r.start = previous.start) ∧
    (3 ≤ previous.phase → r.count = previous.count ∧ r.reason = previous.reason)

instance (r previous : Receipt) : Decidable (r.Follows previous) := by
  unfold Receipt.Follows
  infer_instance

/-! ## Commands -/

def milliseconds (n : ℕ) : ℕ := n * 1000000

def stopBudget : ℕ := milliseconds 5000

def pineExchange : ℕ := milliseconds 2000

def maxSyncOperationMs : ℕ := 250000

def maxSyncAdvanceCount : ℕ := 5000

def Begin : UInt8 := 0x99

def Poll : UInt8 := 0x9a

def Cancel : UInt8 := 0x9b

def Finish : UInt8 := 0x9c

def Pause : UInt8 := 0x9d

def onBridge (f : Bridge → Bridge) (m : Memory) : Memory := { m with bridge := f m.bridge }

def setUnverified : Memory → Memory := onBridge fun b => { b with controlUnverified := true }

def backendTerminal (m : Memory) : Bool := m.bridge.controlUnverified || m.socket.terminal

def remaining (deadline : ℕ) : Pine ℕ := do
  let now ← ask Answer.now?
  if now < deadline then pure (deadline - now) else refuse (.emulator "native operation deadline expired")

/-- What a failed exchange is reported as. -/
def explain (opcode : UInt8) (budget : ℕ) : Pcsx2BridgeError → Pcsx2BridgeError
  | .io error => .io ⟨error.kind, exchangeContext ++ error.message⟩
  | .protocol message => .protocol (exchangeContext ++ message)
  | error => error
where
  exchangeContext : String :=
    "PINE opcode 0x" ++ String.ofList (Nat.toDigits 16 opcode.toNat) ++ " exchange (" ++
      toString (budget / milliseconds 1) ++ " ms): "

def boundedCommand (opcode : UInt8) (body : List UInt8) (deadline cap : ℕ) : Pine (List UInt8) := do
  let memory ← memoryNow
  if backendTerminal memory then refuse (.protocol "native control is retired")
  else do
    let left ← onFailure setUnverified (remaining ((memory.bridge.ioDeadline.map (min · deadline)).getD deadline))
    let budget := min left cap
    let now ← ask Answer.now?
    note (.requested opcode body)
    match ← outcome (transactWithTimeout (opcode :: body) budget) with
    | .error error =>
      if error.breaksStream then remember setUnverified else pure ()
      refuse (explain opcode budget error)
    | .ok reply =>
      match ← outcome (remaining (now + budget)) with
      | .ok _ =>
        note (.replied opcode reply)
        return reply
      | .error _ =>
        remember setUnverified
        refuse (.emulator ("PINE opcode 0x" ++ String.ofList (Nat.toDigits 16 opcode.toNat) ++ " exchange exceeded " ++
          toString (budget / milliseconds 1) ++ " ms: native operation deadline expired"))

def earlier (limit : ℕ) (deadline : Option ℕ) : ℕ := (deadline.map (min · limit)).getD limit

/-- `native_stop_deadline` is moved to the limit, if that is earlier. -/
def limitStop (limit : ℕ) : Memory → Memory :=
  onBridge fun b => { b with nativeStopDeadline := some (earlier limit b.nativeStopDeadline) }

def rememberCancelDeadline : Pine Unit := do
  match ← ask Answer.cancellation? with
  | some cancelledAt => remember (limitStop (cancelledAt + stopBudget))
  | none => pure ()

def receiptCommand (opcode : UInt8) (previous : Receipt) (deadline : ℕ) : Pine Receipt := do
  let reply ← boundedCommand opcode (littleEndian 8 previous.id) deadline pineExchange
  let next ← orRefuse (Receipt.parse reply previous.requested)
  if next.Follows previous then pure next
  else refuse (.protocol "native frame receipt changed operation or terminal")

/-- The polls after a release, up to its confirmation. -/
def awaitFinished (deadline : ℕ) : ℕ → Receipt → Pine Receipt
  | 0, _ => throw .unfinished
  | n + 1, receipt => do
    let _ ← remaining deadline
    if receipt.phase = 5 then pure receipt
    else if receipt.phase ≠ 4 then refuse (.protocol "native finish was not acknowledged")
    else do
      let _ ← remaining deadline
      awaitFinished deadline n (← receiptCommand Poll receipt deadline)

def finishNative (receipt : Receipt) (deadline : ℕ) : Pine Receipt := do
  if receipt.phase ≠ 3 then refuse (.protocol "native frame is not terminal")
  else do
    let receipt ← receiptCommand Finish receipt deadline
    awaitFinished deadline (← rounds) receipt

def admitNative (opcode : UInt8) (body : List UInt8) (requested deadline : ℕ) : Pine Receipt := do
  let reply ← boundedCommand opcode body deadline pineExchange
  let receipt ← orRefuse (Receipt.parse reply requested)
  let bridge := (← memoryNow).bridge
  if receipt.id ≤ bridge.lastNativeId ∨ receipt.generation < bridge.lastNativeGeneration ∨ 3 < receipt.phase then
    refuse (.protocol "native operation admission reused an identity")
  else do
    remember (onBridge fun b =>
      { b with lastNativeId := receipt.id, lastNativeGeneration := receipt.generation })
    note (.admitted receipt.id)
    return receipt

/-! ## Pausing -/

def pauseRounds (deadline : ℕ) : ℕ → Receipt → Pine Unit
  | 0, _ => throw .unfinished
  | n + 1, receipt => do
    let _ ← remaining deadline
    if receipt.phase = 3 then do
      let _ ← finishNative receipt deadline
    else do
      let _ ← remaining deadline
      pauseRounds deadline n (← receiptCommand Poll receipt deadline)

def verifyOwnedPause (deadline : ℕ) : Pine Unit :=
  onFailure setUnverified do
    let left ← remaining deadline
    let budgetMs := min (left / milliseconds 1) maxSyncOperationMs
    if budgetMs = 0 then refuse (.protocol "native pause budget expired")
    else do
      let receipt ← admitNative Pause (littleEndian 4 budgetMs) 0 deadline
      pauseRounds deadline (← rounds) receipt

/-! ## Frames -/

/-- The value of a finished operation; its members are in the order of their names. -/
def stepValue (count : ℕ) (terminal : Receipt) : Json :=
  .obj [("advanced", .nat terminal.count), ("count", .nat terminal.count),
    ("reason", .str (match terminal.reason with
      | 0 => "requested_count"
      | 1 => "cancelled"
      | 2 => "host_deadline"
      | _ => "external_pause_or_debugger_stop")),
    ("requested", .nat count), ("state", .str "frozen"),
    ("status", .str (if terminal.reason = 0 then "completed" else "interrupted")), ("unit", .str "frames")]

/-- The end of the execution limits the stop, once it has passed. -/
def expireExecution (executionEnd : ℕ) : Pine Unit := do
  let now ← ask Answer.now?
  if executionEnd ≤ now then remember (limitStop (executionEnd + stopBudget)) else pure ()

def stepRounds (count executionEnd : ℕ) : ℕ → Receipt → (sentCancel : Bool) → Pine Json
  | 0, _, _ => throw .unfinished
  | n + 1, receipt, sentCancel => do
    rememberCancelDeadline
    expireExecution executionEnd
    let limit := (← memoryNow).bridge.nativeStopDeadline.getD (executionEnd + stopBudget)
    let _ ← remaining limit
    if receipt.phase = 3 then do
      let now ← ask Answer.now?
      let terminal ← finishNative receipt (min limit (now + stopBudget))
      return stepValue count terminal
    else if ← wantsCancel sentCancel then
      stepRounds count executionEnd n (← receiptCommand Cancel receipt limit) true
    else do
      let _ ← remaining limit
      stepRounds count executionEnd n (← receiptCommand Poll receipt limit) sentCancel
where
  /-- `!sent_cancel && (token.is_cancelled() || Instant::now() >= execution_end)` -/
  wantsCancel (sentCancel : Bool) : Pine Bool := do
    if sentCancel then pure false
    else if (← ask Answer.cancellation?).isSome then pure true
    else return decide (executionEnd ≤ (← ask Answer.now?))

def ownedFrameStep (count : ℕ) : Pine Json := do
  if (← ask Answer.cancellation?).isSome then do
    rememberCancelDeadline
    refuse .cancelled
  else
    onFailure setUnverified do
      let now ← ask Answer.now?
      let executionEnd := now + milliseconds maxSyncOperationMs
      let receipt ← admitNative Begin (littleEndian 4 count ++ littleEndian 4 maxSyncOperationMs) (count % 2 ^ 32)
        executionEnd
      stepRounds count executionEnd (← rounds) receipt false

end Emucap.Pcsx2Bridge
