import Emucap.Bundle.Recording
import Emucap.Live.CaptureCapsule

/-!
# The terminal facts of a recording

What a recording ends with is either the terminal report of the producer (`terminal_validation` of
`live/recording_terminal.rs`) or, after a wire failure, a report inferred from what the sink received
(`inferred_validation` of `live/recording.rs`). The outcome of the sinks is then applied to it.
-/

namespace Emucap.Live

open Emucap.Bundle Emucap.Lib

/-! ## Data -/

structure WireTerminal where
  status : String
  captureId : String
  operationOutcome : OperationOutcome
  executionOutcome : ExecutionOutcome
  integrity : Integrity
  reason : Option String
  fOrigin : Option ℕ
  fStart : ℕ
  fEnd : ℕ
  finalFrame : ℕ
  frames : ℕ
  events : ℕ
  bytes : ℕ
  physicalBytes : ℕ
  dropped : ℕ
  truncated : Bool
  firstSequenceGap : Option ℕ
  wallMs : ℕ
  finalExecutionState : FinalExecutionState
  cleanup : CleanupFacts
  stopEvent : Option EventStopFacts
  eventClasses : List EventClassTerminalFacts
  observationStart : Option ObservationStartFacts
  deriving DecidableEq

structure SinkOutcome where
  events : ℕ
  bytes : ℕ
  firstFrame : Option ℕ
  lastFrame : Option ℕ
  truncated : Bool
  error : Option String
  deriving DecidableEq

inductive RecordWindowError where
  | link (error : LinkError)
  | capsule (error : CaptureCapsuleError)
  | publish (reason : String)
  | terminal (reason : String)
  | snapshot (reason : String)
  | panicked
  deriving DecidableEq

/-! ## The producer's report -/

section terminal

variable (captureId : String) (request : RecordingRequest) (requireClassAccounting : Bool)
  (terminal : WireTerminal)

/-- The scope a terminal response may report, for its outcome. -/
def scopeMatchesOutcome (maximumFEnd : ℕ) : Bool :=
  match terminal.executionOutcome with
  | .targetReached => terminal.fEnd == maximumFEnd
  | .eventStop =>
    request.stopOn.isSome && 0 < terminal.fEnd - terminal.fStart && terminal.fEnd ≤ maximumFEnd &&
      terminal.stopEvent.isSome
  | _ => terminal.fEnd ≤ maximumFEnd

/-- The identity, the scope, the counters and the bounds of a terminal response. -/
structure TerminalMatches (expectedFStart maximumFEnd : ℕ) : Prop where
  captureId : terminal.captureId = captureId
  status : terminal.status ∈ ["completed", "failed", "interrupted"]
  fEnd : terminal.fOrigin.getD terminal.fStart ≤ terminal.fEnd
  fStart : terminal.fStart = expectedFStart
  noWarmup : request.warmupFrames = 0 → ∀ origin, terminal.fOrigin = some origin → origin = terminal.fStart
  warmup : 0 < request.warmupFrames → terminal.fOrigin.isSome
  frames : terminal.frames = terminal.fEnd - terminal.fStart
  scope : scopeMatchesOutcome request terminal maximumFEnd = true
  events : terminal.events ≤ request.limits.maxEvents
  physicalBytes : terminal.physicalBytes ≤ request.limits.maxBytes
  bytes : terminal.bytes ≤ terminal.physicalBytes
  wallMs : terminal.wallMs ≤ request.limits.maxHostMs
  classes : requireClassAccounting = true → terminal.eventClasses ≠ []
  completed : terminal.status = "completed" ↔ terminal.operationOutcome = .completed

theorem terminalMatches_iff {expectedFStart maximumFEnd : ℕ} :
    TerminalMatches captureId request requireClassAccounting terminal expectedFStart maximumFEnd ↔
      terminal.captureId = captureId ∧ terminal.status ∈ ["completed", "failed", "interrupted"] ∧
      terminal.fOrigin.getD terminal.fStart ≤ terminal.fEnd ∧ terminal.fStart = expectedFStart ∧
      (request.warmupFrames = 0 → ∀ origin ∈ terminal.fOrigin, origin = terminal.fStart) ∧
      (0 < request.warmupFrames → terminal.fOrigin.isSome) ∧
      terminal.frames = terminal.fEnd - terminal.fStart ∧
      scopeMatchesOutcome request terminal maximumFEnd = true ∧
      terminal.events ≤ request.limits.maxEvents ∧ terminal.physicalBytes ≤ request.limits.maxBytes ∧
      terminal.bytes ≤ terminal.physicalBytes ∧ terminal.wallMs ≤ request.limits.maxHostMs ∧
      (requireClassAccounting = true → terminal.eventClasses ≠ []) ∧
      (terminal.status = "completed" ↔ terminal.operationOutcome = .completed) :=
  ⟨fun h => ⟨h.captureId, h.status, h.fEnd, h.fStart, h.noWarmup, h.warmup, h.frames, h.scope, h.events,
      h.physicalBytes, h.bytes, h.wallMs, h.classes, h.completed⟩,
    fun ⟨h1, h2, h3, h4, h5, h6, h7, h8, h9, h10, h11, h12, h13, h14⟩ =>
      ⟨h1, h2, h3, h4, h5, h6, h7, h8, h9, h10, h11, h12, h13, h14⟩⟩

instance {expectedFStart maximumFEnd : ℕ} :
    Decidable (TerminalMatches captureId request requireClassAccounting terminal expectedFStart maximumFEnd) :=
  decidable_of_iff' _ (terminalMatches_iff captureId request requireClassAccounting terminal)

/-- `terminal_validation`, from the decoded response. -/
def terminalValidation (origin : RecordingOrigin) : Except RecordWindowError RecordingValidationInput := do
  let expectedFStart ← orError (.terminal "terminal warmup scope overflow")
    (checkedAdd (terminal.fOrigin.getD terminal.fStart) request.warmupFrames)
  let maximumFEnd ← orError (.terminal "terminal frame scope overflow")
    (checkedAdd terminal.fStart request.frames)
  require (TerminalMatches captureId request requireClassAccounting terminal expectedFStart maximumFEnd)
    (.terminal "terminal identity, scope, counters, or bounds mismatch")
  return {
    request := request
    origin := origin
    fStart := terminal.fStart
    fEnd := terminal.fEnd
    observationStart := terminal.observationStart
    terminal := {
      operationOutcome := terminal.operationOutcome
      executionOutcome := terminal.executionOutcome
      claimedIntegrity := terminal.integrity
      finalExecutionState := terminal.finalExecutionState
      finalFrame := terminal.finalFrame
      fOrigin := terminal.fOrigin
      counters := ⟨terminal.frames, terminal.events, terminal.bytes, terminal.dropped⟩
      loss := ⟨terminal.dropped, terminal.truncated, terminal.firstSequenceGap⟩
      cleanup := terminal.cleanup
      stopEvent := terminal.stopEvent
      reason := terminal.reason
      eventClasses := terminal.eventClasses } }

end terminal

/-! ## The inferred report -/

/-- What `inferred_validation` reads off the link: the emulator has exited, and the current generation is not
the one the link is bound to. -/
structure LinkSnapshot where
  terminated : Bool
  generationChanged : Bool
  deriving DecidableEq

/-- The adapter refused the request before anything was recorded. -/
def rejectedBeforeArm (sink : SinkOutcome) (error : LinkError) : Bool :=
  (match error with
    | .emulator _ _ => true
    | _ => false) &&
    sink.events == 0 && sink.bytes == 0 && sink.firstFrame.isNone && sink.lastFrame.isNone &&
    !sink.truncated && sink.error.isNone

def saturatingAdd (a b : ℕ) : ℕ := min (a + b) (2 ^ 64 - 1)

def inferredValidation (display : LinkError → String) (origin : RecordingOrigin) (request : RecordingRequest)
    (sink : SinkOutcome) (link : LinkSnapshot) (error : LinkError) :
    Except RecordWindowError RecordingValidationInput := do
  let fOrigin := sink.firstFrame.getD 0
  let fStart ← orError (.terminal "inferred warmup scope overflow") (checkedAdd fOrigin request.warmupFrames)
  let fEnd ← orError (.terminal "inferred frame scope overflow") (checkedAdd fStart request.frames)
  let dropped := if rejectedBeforeArm sink error then 0 else request.frames - sink.events
  return {
    request := request
    origin := origin
    fStart := fStart
    fEnd := fEnd
    observationStart := none
    terminal := {
      operationOutcome := if error = .cancelled then .aborted else .failed
      executionOutcome :=
        if link.generationChanged then .generationChanged
        else if link.terminated then .emulatorExited else .adapterError
      claimedIntegrity := .unverifiable
      finalExecutionState := if link.terminated then .terminated else .unknown
      finalFrame := sink.lastFrame.elim fStart fun frame => saturatingAdd frame 1
      fOrigin := if 0 < request.warmupFrames then some fOrigin else none
      counters := ⟨sink.events, sink.events, sink.bytes, dropped⟩
      loss := ⟨dropped, sink.truncated, none⟩
      cleanup :=
        if rejectedBeforeArm sink error then ⟨.notAcquired, .notAcquired, .notAcquired⟩
        else if link.terminated then ⟨.generationTerminated, .generationTerminated, .generationTerminated⟩
        else ⟨.unverifiable, .unverifiable, .released⟩
      stopEvent := none
      reason := some (display error)
      eventClasses := [] } }

def InferredScopeFits (request : RecordingRequest) (sink : SinkOutcome) : Prop :=
  sink.firstFrame.getD 0 + request.warmupFrames + request.frames < 2 ^ 64

instance (request : RecordingRequest) (sink : SinkOutcome) : Decidable (InferredScopeFits request sink) :=
  inferInstanceAs (Decidable (_ < _))

theorem inferredValidation_ok_iff {display : LinkError → String} {origin : RecordingOrigin}
    {request : RecordingRequest} {sink : SinkOutcome} {link : LinkSnapshot} {error : LinkError} :
    (∃ input, inferredValidation display origin request sink link error = .ok input) ↔
      InferredScopeFits request sink := by
  unfold inferredValidation InferredScopeFits
  constructor
  · rintro ⟨input, h⟩
    obtain ⟨fStart, hstart, h⟩ := orError_bind_eq_ok.mp h
    obtain ⟨fEnd, hend, -⟩ := orError_bind_eq_ok.mp h
    obtain ⟨-, rfl⟩ := checkedAdd_eq_some.mp hstart
    exact (checkedAdd_eq_some.mp hend).1
  · intro h
    have hstart := checkedAdd_eq_some.mpr ⟨(by omega : sink.firstFrame.getD 0 + request.warmupFrames < 2 ^ 64), rfl⟩
    have hend := checkedAdd_eq_some.mpr ⟨h, rfl⟩
    exact ⟨_, orError_bind_eq_ok.mpr ⟨_, hstart, orError_bind_eq_ok.mpr ⟨_, hend, rfl⟩⟩⟩

/-! ## Sink outcomes -/

def addReason (reason : Option String) (more : String) : Option String :=
  some (match reason with
    | some reason => reason ++ "; " ++ more
    | none => more)

/-- A report of a recording that went wrong on the host's side. -/
def failHost (report : ProducerTerminalReport) (reason : String) : ProducerTerminalReport :=
  { report with
    operationOutcome := .failed
    executionOutcome := .adapterError
    claimedIntegrity := .unverifiable
    reason := addReason report.reason reason }

def failSink (report : ProducerTerminalReport) (error : String) : ProducerTerminalReport :=
  let report := failHost report error
  { report with cleanup := { report.cleanup with sink := .unverifiable } }

def applySinkOutcome (report : ProducerTerminalReport) (outcome : SinkOutcome) : ProducerTerminalReport :=
  let report :=
    if outcome.truncated then
      let report := failHost report "host sink received a partial final record"
      { report with loss := { report.loss with truncated := true } }
    else report
  outcome.error.elim report (failSink report)

def applyMemberSinkOutcome (report : ProducerTerminalReport) (error : Option String) : ProducerTerminalReport :=
  error.elim report (failSink report)

/-! ## Summaries for the capsule -/

def terminalSummary (report : ProducerTerminalReport) (publication : PublicationOutcome)
    (bundlePath manifestSha256 reason : Option String) : CaptureTerminalSummary where
  operationOutcome := report.operationOutcome
  executionOutcome := report.executionOutcome
  integrity := report.claimedIntegrity
  publication := publication
  finalExecutionState := report.finalExecutionState
  finalFrame := report.finalFrame
  counters := report.counters
  cleanup := report.cleanup
  stopEvent := report.stopEvent
  bundlePath := bundlePath
  manifestSha256 := manifestSha256
  reason := reason.or report.reason

def failedPublicationSummary (report : ProducerTerminalReport) (reason : String) : CaptureTerminalSummary where
  operationOutcome := report.operationOutcome
  executionOutcome := report.executionOutcome
  integrity := .unverifiable
  publication := .failed
  finalExecutionState := report.finalExecutionState
  finalFrame := report.finalFrame
  counters := report.counters
  cleanup := report.cleanup
  stopEvent := report.stopEvent
  bundlePath := none
  manifestSha256 := none
  reason := some reason

end Emucap.Live
