import Emucap.Lib.Stateful
import Emucap.Live.Temporal.Wire
import Mathlib.Data.Finset.Card

/-!
# Composed temporal tools

`live/tools/cancellable.rs`: a tool runs under a parent operation and keeps flags for what it still has to undo;
`finish` releases the parent. The link answers as it likes (`Answer`). `trace` and `marks` are history.
-/

namespace Emucap.Live.Tools

open Emucap.Lib

def index (v : Json) (k : String) : Json := (v.get k).getD .null

/-! ## The link below -/

/-- What the tool reads from outside at one point: the time of a cancellation, the clock, and a fresh identity.
`reconnected` is the generation that a dropped attachment leaves. -/
structure Moment where
  cancelledAt : Option ℕ
  now : ℕ
  identity : String
  reconnected : Option String

/-- The answer to one call, whether the request was sent, and the generation after it. -/
structure Answer where
  sent : Bool
  result : Except LinkError Json
  launchId : Option String
  reserved : result = .error .cancelled → sent = false

/-- The answer of a temporal exchange on the wire. -/
def Answer.ofExchange (request : Request) (abortId : ℕ) (control : ProgressCallControl) (maxHost : ℕ)
    (d : Temporal.Dispatch) (turns : List Temporal.Turn) (launchId : Option String)
    (result : Except LinkError Temporal.TerminalResponse)
    (h : (Temporal.exchangeInner request abortId control maxHost d turns).1 = some result) : Answer where
  sent := decide ((Temporal.exchangeInner request abortId control maxHost d turns).2 ≠ [])
  result := Temporal.answerOf result
  launchId := launchId
  reserved := fun hcancelled => by simpa using Temporal.exchangeInner_cancelled h hcancelled

structure Exchange where
  method : String
  params : Json
  control : ProgressCallControl
  sent : Bool
  result : Except LinkError Json
  launchId : Option String

structure Inner where
  /-- `capabilities().identity.launch_id` -/
  launchId : Option String
  moments : ℕ → Moment
  answers : ℕ → Answer
  /-- the answers of `finish_temporal_control` -/
  persisted : Bool → Except LinkError Unit
  trace : List Exchange
  marks : List Bool

abbrev OnInner := EStateM LinkError Inner

def look : OnInner Moment := fun s => .ok (s.moments 0) { s with moments := fun i => s.moments (i + 1) }

/-- `call_with_progress`, in temporal mode. -/
def callWithProgress (method : String) (params : Json) (control : ProgressCallControl) : OnInner Json := fun s =>
  let answer := s.answers 0
  let s := { s with
    launchId := answer.launchId
    answers := fun i => s.answers (i + 1)
    trace := s.trace ++ [⟨method, params, control, answer.sent, answer.result, answer.launchId⟩] }
  match answer.result with
  | .ok reply => .ok reply s
  | .error e => .error e s

def finishTemporalControl (verified : Bool) : OnInner (Except LinkError Unit) := fun s =>
  .ok (s.persisted verified) { s with marks := s.marks ++ [verified] }

def ofExcept {σ α : Type} : Except LinkError α → EStateM LinkError σ α
  | .ok a => pure a
  | .error e => throw e

/-- The control of a request of the parent operation. -/
def parentControl (key : OperationKey) (budget now : ℕ) : ProgressCallControl :=
  ⟨some ⟨"cancel_operation", key.toValue⟩, some budget, some budget, some (now + budget)⟩

def finishWithCleanup {α : Type} (outcome : Except LinkError α) (cleanup : Except LinkError Unit)
    (combine : Option LinkError → LinkError → LinkError) : Except LinkError α :=
  match outcome, cleanup with
  | .ok value, .ok () => .ok value
  | .ok _, .error e => .error (combine none e)
  | .error primary, .ok () => .error primary
  | .error primary, .error e => .error (combine (some primary) e)

def combineTemporalCleanupError (display : LinkError → String) (primary : Option LinkError) (cleanup : LinkError) :
    LinkError :=
  .emulator "cleanup_failed" (match primary with
    | some primary => display primary ++ "; request-scoped cleanup also failed: " ++ display cleanup
    | none => "request-scoped cleanup failed: " ++ display cleanup)

/-! ## The tool -/

structure ControlledTool where
  /-- `capability.stop_host_ms` -/
  stopHostMs : ℕ
  runtime : String
  owner : String
  parent : OperationKey
  effectsStarted : Bool
  stopVerified : Bool
  inputIssued : Bool
  inputPorts : Finset ℕ
  advanceDispatched : Bool
  advances : List Json

structure World where
  tool : ControlledTool
  inner : Inner

abbrev Controlled := EStateM LinkError World

def onInner {α : Type} (x : OnInner α) : Controlled α := fun w =>
  match x w.inner with
  | .ok a s => .ok a { w with inner := s }
  | .error e s => .error e { w with inner := s }

def modifyTool (f : ControlledTool → ControlledTool) : Controlled Unit :=
  modify fun w => { w with tool := f w.tool }

def modifyToolIf (c : Prop) [Decidable c] (f : ControlledTool → ControlledTool) : Controlled Unit :=
  modifyTool fun t => if c then f t else t

def maxSyncOperationMs : ℕ := 250000

structure CancellationCapability where
  methods : List String
  stopHostMs : ℕ

def beginParent (parent : OperationKey) (stopHostMs : ℕ) : OnInner Unit := do
  let m ← look
  let reply ← callWithProgress "begin_temporal_operation"
    (.obj [("_temporal_owner", parent.toValue), ("parent", parent.toValue)]) (parentControl parent stopHostMs m.now)
  if index reply "status" ≠ .str "admitted" ∨ index reply "parent" ≠ parent.toValue ∨
      (← get).launchId ≠ some parent.runtime then
    throw (.protocol "producer parent admission was not verified")

/-- `ControlledTool::admit`; `begun` is the answer of `begin_temporal_control`. -/
def admitTool (display : LinkError → String) (capability : Option CancellationCapability) (method owner : String)
    (begun : Except LinkError Unit) : OnInner ControlledTool := do
  let some capability := capability.filter fun c => method ∈ c.methods
    | throw (.emulator "unsupported" "temporal cancellation is unavailable for this step method")
  let some runtime := (← get).launchId.filter fun id => id ≠ ""
    | throw (.protocol "temporal cancellation requires a verified runtime generation")
  ofExcept ((OperationKey.mk runtime owner "admission").validate.mapError .protocol)
  let m ← look
  if m.cancelledAt.isSome then throw .cancelled
  let parent : OperationKey := ⟨runtime, owner, m.identity⟩
  ofExcept begun
  let admitted ← attempt (beginParent parent capability.stopHostMs)
  match admitted with
  | .error error =>
    let persisted ← finishTemporalControl false
    ofExcept (finishWithCleanup (.error error) persisted (combineTemporalCleanupError display))
  | .ok () => return ⟨capability.stopHostMs, runtime, owner, parent, false, false, false, ∅, false, []⟩

def generationCurrent (w : World) : Prop := w.inner.launchId = some w.tool.runtime

instance (w : World) : Decidable (generationCurrent w) := inferInstanceAs (Decidable (_ = _))

def checkGeneration : Controlled Unit := do
  if ¬ generationCurrent (← get) then throw (.protocol "temporal runtime generation changed")

def isCancelled : Controlled Bool := do return (← onInner look).cancelledAt.isSome

def prepareReconnect : OnInner Unit := do
  let m ← look
  modify fun s => { s with launchId := m.reconnected }

def remainingParentBudget : Controlled ℕ := do
  let budget := (← get).tool.stopHostMs
  let m ← onInner look
  match m.cancelledAt with
  | none => return budget
  | some cancelled =>
    let remaining := cancelled + budget - m.now
    if remaining = 0 then
      onInner prepareReconnect
      throw (.emulator "temporal_unverified" "composed cancellation cleanup deadline expired")
    return remaining

/-- `parent_request`. A clean-up is a request with a cancellation of its own. -/
def parentRequest (method : String) (params : Json) : Controlled Json := do
  checkGeneration
  let remaining ← remainingParentBudget
  let tool := (← get).tool
  let m ← onInner look
  let control := { parentControl tool.parent tool.stopHostMs m.now with
    maxHostMs := some remaining
    temporalDeadline := some (m.cancelledAt.elim (m.now + tool.stopHostMs) fun cancelled =>
      min (m.now + tool.stopHostMs) (cancelled + tool.stopHostMs)) }
  onInner (callWithProgress method (params.set "_temporal_owner" tool.parent.toValue) control)

/-! ## Calls -/

def isFrozen (reply : Json) : Prop := index reply "state" = .str "frozen"

instance (reply : Json) : Decidable (isFrozen reply) := inferInstanceAs (Decidable (_ = _))

def passThrough (method : String) (params : Json) : Controlled Json := do
  let old := (← get).tool
  modifyToolIf (method = "pause") fun t => { t with effectsStarted := true, stopVerified := false }
  let _ ← isCancelled
  let result ← attempt (parentRequest method params)
  modifyToolIf (result = .error .cancelled) fun t =>
    { t with effectsStarted := old.effectsStarted, stopVerified := old.stopVerified }
  modifyToolIf ((method = "pause" ∨ method = "status") ∧ generationCurrent (← get) ∧
    ∃ reply ∈ result.toOption, isFrozen reply) fun t => { t with stopVerified := true }
  ofExcept result

def isValidate (params : Json) : Prop := index params "_input_scope" = .str "validate"

instance (params : Json) : Decidable (isValidate params) := inferInstanceAs (Decidable (_ = _))

def isRelease (params : Json) : Prop :=
  index params "_input_scope" = .str "release" ∨
    (params.get "_input_scope" = none ∧ index params "buttons" = .arr [] ∧
      ∀ axes ∈ params.get "axes", axes = .obj [])

instance (params : Json) : Decidable (isRelease params) := inferInstanceAs (Decidable (_ ∨ (_ ∧ _ ∧ ∀ _ ∈ _, _)))

def portOf (params : Json) : ℕ := ((params.get "port").bind Json.asU64).getD 0

/-- The end of `call` for `set_input`, where `old` is the tool as it was before. -/
def sendInput (old : ControlledTool) (params : Json) : Controlled Json := do
  modifyTool fun t => { t with inputPorts := insert (portOf params) t.inputPorts }
  let result ← attempt (parentRequest "set_input" params)
  modifyToolIf (result = .error .cancelled) fun t => { t with
    inputIssued := old.inputIssued
    effectsStarted := old.effectsStarted
    inputPorts := old.inputPorts }
  modifyToolIf (isRelease params ∧ result.isOk = true) fun t => { t with inputIssued := false }
  ofExcept result

def setInput (params : Json) : Controlled Json := do
  let old := (← get).tool
  if isValidate params then
    parentRequest "set_input" params
  else if isRelease params then
    if old.inputIssued = false then
      return .obj [("status", .str "completed")]
    else
      sendInput old params
  else
    checkGeneration
    if ← isCancelled then
      throw .cancelled
    else
      modifyTool fun t => { t with inputIssued := true, effectsStarted := true }
      sendInput old params

def advanceUnit (method : String) : String × String :=
  if method = "step_input_polls" then ("count", "input_polls")
  else if method = "step" then ("frames", "frames")
  else ("count", "instructions")

def stoppedReply (unit : String) (requested : ℕ) (status : Json) : Json :=
  let stopped : Json := .obj [("count", .nat 0), ("frame", index status "frame"), ("reason", .str "cancelled"),
    ("requested", .nat requested), ("state", .str "frozen"), ("status", .str "interrupted"), ("unit", .str unit)]
  match ((status.get "event_pending").bind Json.asBool).or
      (((status.get "queued_events").bind Json.asU64).map fun n => decide (n ≠ 0)) with
  | some pending => stopped.set "event_pending" (.bool pending)
  | none => stopped

/-- An advance after a cancellation: it is not started, and the guest is seen to stand. -/
def betweenPhases (unit : String) (requested : ℕ) : Controlled Json := do
  let status ← passThrough "status" (.obj [])
  checkGeneration
  if ¬ isFrozen status then throw (.protocol "between-phase cancellation did not observe frozen state")
  return stoppedReply unit requested status

def dispatchAdvance (method : String) (params : Json) : Controlled Json := do
  let m ← onInner look
  let tool := (← get).tool
  let key : OperationKey := ⟨tool.runtime, tool.owner, m.identity⟩
  let params := (params.set "_control" key.toValue).set "_temporal_owner" tool.parent.toValue
  let control : ProgressCallControl := ⟨some ⟨"cancel_operation", key.toValue⟩, some maxSyncOperationMs,
    some tool.stopHostMs, some (m.now + maxSyncOperationMs)⟩
  modifyTool fun t => { t with advanceDispatched := true, effectsStarted := true, stopVerified := false }
  let result ← attempt (onInner (callWithProgress method params control))
  modifyToolIf (result = .error .cancelled) fun t =>
    { t with stopVerified := tool.stopVerified, effectsStarted := tool.effectsStarted }
  ofExcept result

def advanceValid (unit : String) (requested : ℕ) (reply : Json) : Prop :=
  isFrozen reply ∧ index reply "unit" = .str unit ∧
    (∃ count ∈ (index reply "count").asU64, count ≤ requested ∧
      (index reply "status" = .str "completed" → count = requested)) ∧
    (index reply "status" = .str "completed" ∨
      index reply "status" = .str "interrupted" ∧ (index reply "reason").asStr.isSome)

instance (unit : String) (requested : ℕ) (reply : Json) : Decidable (advanceValid unit requested reply) :=
  inferInstanceAs (Decidable (_ ∧ _ ∧ (∃ _ ∈ _, _) ∧ _))

def advance (method : String) (params : Json) : Controlled Json := do
  checkGeneration
  let (field, unit) := advanceUnit method
  let some requested := (index params field).asU64 | throw (.protocol "temporal count missing")
  let reply ← if ← isCancelled then betweenPhases unit requested else dispatchAdvance method params
  checkGeneration
  if ¬ advanceValid unit requested reply then
    throw (.protocol "invalid temporal terminal boundary or progress")
  modifyTool fun t => { t with
    stopVerified := true
    advances := t.advances ++ [.obj [("count", index reply "count"), ("requested", .nat requested),
      ("status", index reply "status"), ("unit", .str unit)]] }
  return reply

def advanceMethods : List String := ["step", "step_instructions", "step_input_polls"]

def call (method : String) (params : Json) : Controlled Json :=
  if method ∈ advanceMethods then advance method params
  else if method = "set_input" then setInput params
  else passThrough method params

/-! ## The end of the operation -/

/-- The ports that the producer says it has released. -/
def releasedPorts (reply : Json) : Option (List ℕ) := (index reply "released_ports").asArray.bind (·.mapM Json.asU64)

/-- The producer has released the parent, with everything the tool has started. -/
def releaseVerified (tool : ControlledTool) (reply : Json) : Prop :=
  index reply "status" = .str "completed" ∧ index reply "parent" = tool.parent.toValue ∧
    index reply "cleanup_verified" = .bool true ∧
    (∃ ports ∈ releasedPorts reply, ports.length = tool.inputPorts.card ∧ ports.toFinset = tool.inputPorts) ∧
    (∃ effects ∈ (index reply "effects_started").asBool,
      (tool.effectsStarted = true → effects = true) ∧ (effects = true → isFrozen reply))

instance (tool : ControlledTool) (reply : Json) : Decidable (releaseVerified tool reply) :=
  inferInstanceAs (Decidable (_ ∧ _ ∧ _ ∧ (∃ _ ∈ _, _) ∧ (∃ _ ∈ _, _)))

def finishProducer : Controlled Unit := do
  checkGeneration
  let parent := (← get).tool.parent
  let reply ← parentRequest "finish_temporal_operation" (.obj [("parent", parent.toValue)])
  checkGeneration
  if ¬ releaseVerified (← get).tool reply then throw (.protocol "producer parent cleanup was not verified")

inductive ToolOutput where
  | json (value : Json)
  | image (pngBase64 : String) (savedPath : Option String) (provenance : Json)

def attachProgress (advances : List Json) : ToolOutput → ToolOutput
  | .json value => .json (value.set "advances" (.arr advances))
  | output => output

def ControlledTool.verified (t : ControlledTool) (producer : Except LinkError Unit) : Bool :=
  (!t.effectsStarted || t.stopVerified) && !t.inputIssued && producer.isOk

def finishOutcome (display : LinkError → String) (outcome : Except LinkError ToolOutput)
    (producer answer : Except LinkError Unit) (verified : Bool) : Except LinkError ToolOutput :=
  let persisted := finishWithCleanup producer answer (combineTemporalCleanupError display)
  let cleanup := persisted.bind fun () =>
    if verified then .ok ()
    else .error (.emulator "temporal_unverified"
      "temporal stop or input release was not verified; runtime is quarantined")
  finishWithCleanup outcome cleanup (combineTemporalCleanupError display)

def finish (display : LinkError → String) (outcome : Except LinkError ToolOutput) : Controlled ToolOutput := do
  let producer ← attempt finishProducer
  let verified := (← get).tool.verified producer
  let answer ← onInner (finishTemporalControl verified)
  let result ← ofExcept (finishOutcome display outcome producer answer verified)
  return attachProgress (← get).tool.advances result

end Emucap.Live.Tools
