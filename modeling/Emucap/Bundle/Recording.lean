import Emucap.Bundle.Event
import Emucap.Live.RecordingCapability

/-!
# Validation of a recording

`validate_recording_file` (`bundle/recording.rs`): the request, the scope, the terminal report of the producer
and the event file, checked against each other. The result is complete, lossy or unverifiable.
-/

namespace Emucap.Bundle

open Emucap.Lib

/-! ## Data -/

structure ProducerTerminalReport where
  operationOutcome : OperationOutcome
  executionOutcome : ExecutionOutcome
  claimedIntegrity : Integrity
  finalExecutionState : FinalExecutionState
  finalFrame : ℕ
  fOrigin : Option ℕ
  counters : RecordingCounters
  loss : LossFacts
  cleanup : CleanupFacts
  stopEvent : Option EventStopFacts
  reason : Option String
  eventClasses : List EventClassTerminalFacts
  deriving DecidableEq

structure RecordingValidationInput where
  request : RecordingRequest
  origin : RecordingOrigin
  fStart : ℕ
  fEnd : ℕ
  observationStart : Option ObservationStartFacts
  terminal : ProducerTerminalReport
  deriving DecidableEq

structure ValidatedRecording where
  stream : EventStreamReport
  integrity : Integrity
  terminal : ProducerTerminalReport
  deriving DecidableEq

inductive RecordingValidationError where
  | invalidLimits (error : Live.RecordingCapabilityError)
  | event (error : EventValidationError)
  | contract (error : EventContractError)
  | frameLimit (limit : ℕ)
  | frameOverflow
  | scope (expected actual : ℕ)
  | inconsistentComplete (reason : String)
  | stopEventMismatch
  | eventClassFacts
  | observationStartFacts
  deriving DecidableEq

abbrev RecordingCheck := Except RecordingValidationError

/-- Something was released, or never acquired, or went with its generation. -/
def CleanupState.settled : CleanupState → Bool
  | .released | .notAcquired | .generationTerminated => true
  | .unverifiable => false

def cleanupComplete (cleanup : CleanupFacts) : Bool :=
  cleanup.hooks.settled && cleanup.transientInput.settled &&
    (cleanup.sink == .released || cleanup.sink == .generationTerminated)

namespace RecordingRequest

variable (request : RecordingRequest)

def requestedIds : List String := request.eventClasses.map EventClassIdentity.id

def armingScope (id : String) : Option EventArmingScope :=
  (request.eventArming.reverse.find? fun arming => arming.id == id).map EventClassArming.scope

/-- The recording has a warmup or starts at an event, so that classes are armed one by one. -/
def staged : Bool := 0 < request.warmupFrames || request.startOn.isSome

def armingCovers : Bool :=
  request.eventArming.length == request.requestedIds.dedup.length &&
    (request.eventArming.map EventClassArming.id).dedup.length == request.requestedIds.dedup.length &&
    request.requestedIds.all fun id => (request.armingScope id).isSome

end RecordingRequest

namespace RecordingValidationInput

variable (input : RecordingValidationInput)

def fOrigin : ℕ := input.terminal.fOrigin.getD input.fStart

def classInterval (id : String) : FrameInterval :=
  let start := match input.request.armingScope id with
    | some .transaction => input.fOrigin
    | _ => input.fStart
  ⟨start, max input.fEnd start⟩

def classIntervals : List (String × FrameInterval) :=
  input.request.requestedIds.foldl (fun map id => OrdMap.insert id (input.classInterval id) map) []

/-- The classes that are armed for the observation only. -/
def observationClasses : List String :=
  (input.request.eventArming.map EventClassArming.id).filter fun id =>
    input.request.armingScope id == some .observation

def spec : EventValidationSpec where
  fStart := input.fOrigin
  fEnd := input.fEnd
  observationStart := input.fStart
  classIntervals := input.classIntervals
  eventClasses := input.request.eventClasses
  eventFilters := input.request.eventFilters
  limits := input.request.limits
  stopOn := input.request.stopOn

/-! ## The checks before the stream -/

/-- The scope of the recording; the largest end it may have. -/
def checkScope : RecordingCheck ℕ := do
  (Live.validateRecordingLimits input.request.limits).mapError .invalidLimits
  let totalFrames ← orError .frameOverflow (checkedAdd input.request.warmupFrames input.request.frames)
  require (input.request.frames ≠ 0 ∧ totalFrames ≤ input.request.limits.maxFrames)
    (.frameLimit input.request.limits.maxFrames)
  let expectedFStart ← orError .frameOverflow (checkedAdd input.fOrigin input.request.warmupFrames)
  let maximumEnd ← orError .frameOverflow (checkedAdd input.fStart input.request.frames)
  require (input.request.requestedIds.Nodup ∧ expectedFStart = input.fStart ∧ input.fOrigin ≤ input.fEnd ∧
      (input.request.staged = false → input.request.eventArming = [] ∧
        ∀ origin ∈ input.terminal.fOrigin, origin = input.fStart) ∧
      (input.request.staged = true → input.terminal.fOrigin.isSome ∧ input.terminal.eventClasses ≠ [] ∧
        input.request.armingCovers))
    .eventClassFacts
  require (input.fEnd ≤ maximumEnd) (.scope maximumEnd input.fEnd)
  return maximumEnd

def checkIdentities (registry : EventContractRegistry) : List EventClassIdentity → RecordingCheck Unit
  | [] => .ok ()
  | identity :: rest => do
    let _ ← (registry.validateIdentity identity).mapError .contract
    checkIdentities registry rest

/-- The event-aligned start is reported exactly where it was requested. -/
def checkObservationStart : RecordingCheck Unit :=
  match input.request.startOn, input.observationStart with
  | none, none => require (input.request.initialSnapshots = []) .observationStartFacts
  | some requested, some observed =>
    require (requested.eventClass = observed.eventClass ∧ input.fStart = observed.frame ∧
      ⟨observed.eventClass, observed.contractSha256⟩ ∈ input.request.eventClasses) .observationStartFacts
  | _, _ => .error .observationStartFacts

/-! ## The checks after the stream -/

def checkArmed (facts : EventClassTerminalFacts) : RecordingCheck Unit :=
  if input.request.staged = false then require facts.armedInterval.isNone .eventClassFacts
  else do
    let expected ← orError .eventClassFacts (OrdMap.find? facts.id input.classIntervals)
    let observationNotArmed := input.request.armingScope facts.id == some .observation &&
      input.fEnd ≤ input.fStart && !facts.armed
    require (if observationNotArmed then facts.armedInterval = none
      else facts.armed ∧ facts.armedInterval = some expected) .eventClassFacts

def checkClassFacts (stream : EventStreamReport) :
    List EventClassTerminalFacts → List String → ℕ → RecordingCheck (List String × ℕ)
  | [], reported, dropped => .ok (reported, dropped)
  | facts :: rest, reported, dropped => do
    require (facts.id ∈ input.request.requestedIds ∧ facts.id ∉ reported ∧
      (OrdMap.find? facts.id stream.classCounts).getD 0 = facts.observed ∧
      facts.dropped ≤ input.terminal.counters.dropped) .eventClassFacts
    input.checkArmed facts
    let dropped ← orError .eventClassFacts (checkedAdd dropped facts.dropped)
    checkClassFacts stream rest (facts.id :: reported) dropped

def checkReportedClasses (stream : EventStreamReport) : RecordingCheck Unit :=
  if input.terminal.eventClasses = [] then .ok ()
  else do
    let (reported, dropped) ← input.checkClassFacts stream input.terminal.eventClasses [] 0
    require (input.request.requestedIds.all (reported.contains ·) ∧ dropped = input.terminal.counters.dropped)
      .eventClassFacts

/-! ## Completeness -/

def actualFrames : ℕ := input.fEnd - input.fStart

def countersMatch (stream : EventStreamReport) : Bool :=
  input.terminal.counters.events == stream.records && input.terminal.counters.bytes == stream.completeBytes &&
    input.terminal.counters.frames == input.actualFrames

def stopClosesScope (stream : EventStreamReport) : Bool :=
  stream.stopEvent.any fun event => checkedAdd event.frame 1 == some input.fEnd &&
    if event.eventClass = "frame_completed" then input.terminal.finalFrame == input.fEnd
    else input.terminal.finalFrame == event.frame

def partialFrameStop (stream : EventStreamReport) : Bool :=
  stream.stopEvent.any fun event => event.eventClass != "frame_completed" &&
    checkedAdd event.frame 1 == some input.fEnd && input.terminal.finalFrame == event.frame

def stopMatches (stream : EventStreamReport) (maximumEnd : ℕ) : Bool :=
  match input.terminal.executionOutcome with
  | .targetReached =>
    input.fEnd == maximumEnd && input.terminal.stopEvent.isNone && stream.stopEvent.isNone
  | .eventStop =>
    input.request.stopOn.isSome && input.terminal.stopEvent.isSome &&
      input.terminal.stopEvent == stream.stopEvent && input.stopClosesScope stream
  | _ => input.terminal.stopEvent.isNone

def expectedRecords (id : String) : ℕ :=
  match OrdMap.find? id input.classIntervals with
  | none => input.actualFrames
  | some scope => scope.fEnd - scope.fStart

def terminalCoordinateMatches (stream : EventStreamReport) : Bool :=
  match input.terminal.executionOutcome with
  | .targetReached => input.terminal.finalFrame == input.fEnd
  | .eventStop => input.stopClosesScope stream
  | _ => false

def completedFrameCoverage (stream : EventStreamReport) : Bool :=
  !input.request.requestedIds.contains "frame_completed" ||
    stream.frameCompletedRecords ==
      input.expectedRecords "frame_completed" - (input.partialFrameStop stream).toNat

def complete (stream : EventStreamReport) (maximumEnd : ℕ) : Bool :=
  input.terminal.operationOutcome == .completed &&
    (input.terminal.executionOutcome == .targetReached || input.terminal.executionOutcome == .eventStop) &&
    input.terminal.claimedIntegrity == .complete &&
    input.terminalCoordinateMatches stream &&
    0 < input.actualFrames &&
    input.terminal.counters.dropped == 0 &&
    input.terminal.loss.dropped == 0 &&
    !input.terminal.loss.truncated &&
    input.terminal.loss.firstSequenceGap.isNone &&
    input.terminal.eventClasses.all (fun facts => facts.armed && facts.dropped == 0) &&
    input.countersMatch stream &&
    stream.completeness == .complete &&
    stream.frameBoundaryRecords == input.expectedRecords "frame_boundary" &&
    input.completedFrameCoverage stream &&
    input.stopMatches stream maximumEnd &&
    cleanupComplete input.terminal.cleanup &&
    (input.terminal.finalExecutionState == .frozen || input.terminal.finalExecutionState == .terminated)

def integrity (stream : EventStreamReport) (maximumEnd : ℕ) : Integrity :=
  if input.complete stream maximumEnd then .complete
  else if stream.completeness == .partialFinalLine || !input.countersMatch stream ||
      input.terminal.claimedIntegrity == .unverifiable || input.terminal.loss.truncated ||
      input.terminal.loss.firstSequenceGap.isSome || !cleanupComplete input.terminal.cleanup then .unverifiable
  else .lossy

end RecordingValidationInput

def validateRecordingFile (decode : List UInt8 → Except String EventEnvelope) (sha256 : List UInt8 → String)
    (file : EventFile) (registry : EventContractRegistry) (input : RecordingValidationInput) :
    RecordingCheck ValidatedRecording := do
  let maximumEnd ← input.checkScope
  RecordingValidationInput.checkIdentities registry input.request.eventClasses
  input.checkObservationStart
  let stream ← (validateEventStreamAtStart decode sha256 file registry input.spec input.observationStart
    input.observationClasses).mapError .event
  require (input.terminal.stopEvent = stream.stopEvent) .stopEventMismatch
  input.checkReportedClasses stream
  require (¬ (input.terminal.operationOutcome = .completed ∧ !input.complete stream maximumEnd))
    (.inconsistentComplete "producer claimed completion without exact scope, counters, cleanup, or stream")
  return ⟨stream, input.integrity stream maximumEnd, input.terminal⟩

end Emucap.Bundle
