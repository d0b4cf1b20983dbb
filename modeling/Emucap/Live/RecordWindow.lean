import Emucap.Live.CaptureRuns
import Emucap.Live.RecordingRequest
import Emucap.Live.RecordingTerminal

/-!
# A recording window, from the first notice to its end

The part of `record_window` (`live/recording.rs`) that runs once the adapter has been asked to record. The capsule is
driven through the calls of `CaptureCapsule`; the answers of everything else are parameters.
-/

namespace Emucap.Live

open Emucap.Bundle Emucap.Lib

/-! ## Progress notices -/

structure ProgressState where
  nextSequence : ℕ
  lastFrame : Option ℕ
  lastCompletedFrames : Option ℕ
  lastEvents : ℕ
  lastBytes : ℕ
  first : Bool
  lastPhase : Option WorkingProgressPhase
  deriving DecidableEq

def ProgressState.new : ProgressState := ⟨0, none, none, 0, 0, true, none⟩

def phaseTransitionIsValid : Option WorkingProgressPhase → Option WorkingProgressPhase → Bool
  | none, _ => true
  | some .warming, some _ => true
  | some .aligning, some .aligning | some .aligning, some .recording => true
  | some .recording, some .recording => true
  | _, _ => false

/-- The checks of `ProgressState::validate`, for the limits of the recording and the frames it may report. -/
def ProgressState.accepts (state : ProgressState) (captureId : String) (limits : RecordingLimits)
    (requestedFrames : ℕ) (requireExplicitFrames : Bool) (progress : WorkingProgress) : Bool :=
  progress.captureId == captureId && progress.sequence == state.nextSequence &&
    state.lastFrame.all (· ≤ progress.frame) &&
    (!requireExplicitFrames || progress.frames.isSome) &&
    (state.lastCompletedFrames.isNone || progress.frames.isSome) &&
    progress.frames.all (· ≤ requestedFrames) &&
    (match state.lastCompletedFrames, progress.frames with
      | some previous, some current => previous ≤ current
      | _, _ => true) &&
    state.lastEvents ≤ progress.events && state.lastBytes ≤ progress.bytes &&
    progress.events ≤ limits.maxEvents && progress.bytes ≤ limits.maxBytes &&
    phaseTransitionIsValid state.lastPhase progress.phase

def ProgressState.advance (state : ProgressState) (progress : WorkingProgress) : ProgressState :=
  { state with
    nextSequence := saturatingAdd state.nextSequence 1
    lastFrame := some progress.frame
    lastCompletedFrames := progress.frames.or state.lastCompletedFrames
    lastEvents := progress.events
    lastBytes := progress.bytes
    lastPhase := progress.phase }

/-! ## The surroundings -/

/-- A memory region read from the emulator, for a request. -/
structure CapturedSnapshot where
  request : SnapshotRequest
  bytes : List UInt8

structure MemberSinkOutcome where
  members : List CapturedSnapshot
  incomplete : Option CapturedSnapshot
  error : Option String

/-- What is fixed when the adapter is asked to record. `bytes` is the size of an encoded capsule,
`decodeTerminal` reads the adapter's response, and the texts are those of the errors. -/
structure RecordSetting where
  bytes : CaptureCapsule → Option ℕ
  decodeTerminal : Json → Except String WireTerminal
  linkText : LinkError → String
  errorText : RecordWindowError → String
  repository : CaptureCapsuleRepository
  captureId : String
  effective : EffectiveRequest
  classAccounting : Bool

/-- What the recording meets: the notices and the answer of the adapter, the outcome of the sinks, the state of
the link, the writes to the staging directory, the frozen readout, a cancellation before the `n`-th snapshot
is staged, the publication, and the surroundings of the `n`-th call on the capsule. -/
structure RecordWorld where
  notices : List WorkingProgress
  callResult : Except LinkError Json
  sink : SinkOutcome
  memberSink : Option MemberSinkOutcome
  link : LinkSnapshot
  writeInitial : CapturedSnapshot → Except String Unit
  writePartial : CapturedSnapshot → Except String Unit
  snapshots : Except RecordWindowError (List CapturedSnapshot)
  cancelled : ℕ → Bool
  writeTerminal : CapturedSnapshot → Except String Unit
  terminalState : TerminalStateRequest → Except RecordWindowError (List UInt8)
  writeState : TerminalStateRequest → List UInt8 → Except String Unit
  publish : RecordingValidationInput → Except String VerifiedPublishedRecording
  capsule : ℕ → CaptureWorld

structure RecordStore where
  capsule : Option CaptureCapsule
  calls : ℕ
  progress : ProgressState

abbrev RecordM := ExceptT RecordWindowError (StateM RecordStore)

namespace RecordM

def ensure (c : Bool) (e : RecordWindowError) : RecordM Unit := if c then pure () else throw e

def whenever (c : Bool) (x : RecordM Unit) : RecordM Unit := if c then x else pure ()

def ofExcept {α : Type} (r : Except RecordWindowError α) : RecordM α := ExceptT.mk (pure r)

variable {α β : Type} {x : RecordM α} {f : α → RecordM β} {s s' : RecordStore}

theorem bind_ok {a : α} (h : x s = (.ok a, s')) : (x >>= f) s = f a s' := by
  show (ExceptT.bind x f) s = _
  simp only [ExceptT.bind, ExceptT.mk, bind, StateT.bind, h]
  rfl

theorem bind_error {e : RecordWindowError} (h : x s = (.error e, s')) : (x >>= f) s = (.error e, s') := by
  show (ExceptT.bind x f) s = _
  simp only [ExceptT.bind, ExceptT.mk, bind, StateT.bind, h]
  rfl

theorem ensure_bind {c : Bool} {e : RecordWindowError} {f : Unit → RecordM β} (h : c = true) :
    (ensure c e >>= f) s = f () s := by
  subst h
  rfl

theorem modify_bind {g : RecordStore → RecordStore} {f : Unit → RecordM β} :
    ((modify g : RecordM Unit) >>= f) s = f () (g s) := rfl

theorem get_bind {f : RecordStore → RecordM β} : ((get : RecordM RecordStore) >>= f) s = f s s := rfl

end RecordM

section window

variable (setting : RecordSetting) (world : RecordWorld)

def capsuleCall {α : Type} (call : CaptureCall α) : RecordM α := fun store =>
  let (result, capsule) := Prog.eval (σ := Option CaptureCapsule)
    (fun o cell => captureExec setting.bytes (world.capsule store.calls) cell o) call store.capsule
  let store := { store with capsule := capsule, calls := store.calls + 1 }
  match result with
  | some (.ok a) => (.ok a, store)
  | some (.error e) => (.error (.capsule e), store)
  | none => (.error .panicked, store)

def transition (expected next : CaptureState) (terminal : Option CaptureTerminalSummary) : RecordM Unit := do
  let _ ← capsuleCall setting world
    (setting.repository.transition setting.bytes setting.captureId expected next terminal)

/-! ## The observer -/

/-- The request has more to it than frames, so that a notice has to count them. -/
def requireExplicitFrames (request : RecordingRequest) : Bool :=
  request.inputMovie.isSome || request.initialState.isSome || request.stopOn.isSome ||
    1 < request.eventClasses.length || 0 < request.warmupFrames || request.startOn.isSome

def beginsRecording (request : RecordingRequest) (progress : WorkingProgress) : Bool :=
  progress.phase == some .recording ||
    (progress.phase.isNone && progress.frames.any (request.warmupFrames ≤ ·))

def arm (state : ProgressState) : RecordM Unit :=
  RecordM.whenever state.first do
    transition setting world .arming .armed none
    modify fun store => { store with progress := { store.progress with first := false } }

def observer (progress : WorkingProgress) : RecordM Unit := do
  let request := setting.effective.request
  let state := (← get).progress
  RecordM.ensure (state.accepts setting.captureId request.limits
      (saturatingAdd request.frames request.warmupFrames) (requireExplicitFrames request) progress)
    (.link (.protocol "recording progress identity, sequence, or bounds mismatch"))
  modify fun store => { store with progress := state.advance progress }
  arm setting world state
  let capsule ← capsuleCall setting world setting.repository.read
  RecordM.whenever (capsule.any (fun c => c.state == .armed) && beginsRecording request progress)
    (transition setting world .armed .recording none)
  let store ← get
  let _ ← capsuleCall setting world (setting.repository.updateProgress setting.bytes setting.captureId
    { sequence := progress.sequence
      frame := progress.frame
      frames := progress.frames
      events := progress.events
      bytes := progress.bytes
      observedAtUnixMs := (world.capsule store.calls).now })

/-- The store after the notices. A notice that is refused leaves what was done before its refusal. -/
def afterNotices (store : RecordStore) : RecordStore :=
  world.notices.foldl (fun store progress => (observer setting world progress store).2) store

/-! ## Closing -/

/-- The terminal facts, and the wire error they had to be inferred for. -/
def terminalReport : Except RecordWindowError (RecordingValidationInput × Option LinkError) :=
  let infer (error : LinkError) : Except RecordWindowError (RecordingValidationInput × Option LinkError) := do
    let validation ← inferredValidation setting.linkText setting.effective.origin setting.effective.request
      world.sink world.link error
    return (validation, some error)
  match world.callResult with
  | .error error => infer error
  | .ok value =>
    let validated : Except RecordWindowError RecordingValidationInput := do
      let terminal ← (setting.decodeTerminal value).mapError .terminal
      terminalValidation setting.captureId setting.effective.request setting.classAccounting terminal
        setting.effective.origin
    match validated with
    | .ok validation => .ok (validation, none)
    | .error error => infer (.protocol (setting.errorText error))

/-- The snapshots of the member sink go to the staging directory, up to the first that cannot be written. -/
def stageInitial (report : ProducerTerminalReport) : List CapturedSnapshot → ProducerTerminalReport
  | [] => report
  | snapshot :: rest =>
    match world.writeInitial snapshot with
    | .ok () => stageInitial report rest
    | .error error =>
      { report with
        operationOutcome := .failed
        executionOutcome := .adapterError
        claimedIntegrity := .unverifiable
        reason := some error }

def stagePartial (report : ProducerTerminalReport) : Option CapturedSnapshot → ProducerTerminalReport
  | none => report
  | some snapshot =>
    match world.writePartial snapshot with
    | .ok () => report
    | .error error => { report with reason := some error }

def applySinks (report : ProducerTerminalReport) : ProducerTerminalReport :=
  let report := applySinkOutcome report world.sink
  match world.memberSink with
  | none => report
  | some outcome =>
    let report := applyMemberSinkOutcome report outcome.error
    stagePartial world (stageInitial world report outcome.members) outcome.incomplete

/-! ## The frozen readout -/

/-- `terminalize_snapshot_failure`, and the error returned after it. -/
def failReadout {α : Type} (report : ProducerTerminalReport) (reason : String) (error : RecordWindowError) :
    RecordM α := do
  transition setting world .frozenReadout .finalizing none
  let report := { report with
    operationOutcome := .failed, claimedIntegrity := .unverifiable, reason := some reason }
  transition setting world .finalizing .publicationFailed
    (some (terminalSummary report .failed none none (some reason)))
  throw error

/-- The recording has reached a boundary at which memory may be read. -/
def readable (validation : RecordingValidationInput) (wireError : Option LinkError) : Bool :=
  wireError.isNone && validation.fStart != validation.fEnd && world.sink.firstFrame.isSome &&
    validation.terminal.operationOutcome == .completed && validation.terminal.claimedIntegrity == .complete &&
    validation.terminal.finalExecutionState == .frozen

def stageTerminal (report : ProducerTerminalReport) : List CapturedSnapshot → ℕ → RecordM Unit
  | [], _ => pure ()
  | snapshot :: rest, n =>
    if world.cancelled n then
      let error := RecordWindowError.snapshot "request was cancelled during frozen snapshot staging"
      failReadout setting world report (setting.errorText error) error
    else match world.writeTerminal snapshot with
      | .error error => failReadout setting world report error (.publish error)
      | .ok () => stageTerminal report rest (n + 1)

def stageState (report : ProducerTerminalReport) : Option TerminalStateRequest → RecordM Unit
  | none => pure ()
  | some request =>
    match world.terminalState request with
    | .error error => failReadout setting world report (setting.errorText error) error
    | .ok bytes =>
      match world.writeState request bytes with
      | .error error => failReadout setting world report error (.publish error)
      | .ok () => pure ()

/-- The frozen readout, where one was asked for, up to the state in which the bundle is made. -/
def readout (validation : RecordingValidationInput) (wireError : Option LinkError) : RecordM Unit := do
  let request := setting.effective.request
  if request.terminalSnapshots.isEmpty && request.terminalState.isNone then
    transition setting world .closing .finalizing none
  else
    transition setting world .closing .frozenReadout none
    if !readable world validation wireError then
      let error := RecordWindowError.snapshot "recording did not reach a complete frozen terminal boundary"
      failReadout setting world validation.terminal (setting.errorText error) error
    else match world.snapshots with
      | .error error => failReadout setting world validation.terminal (setting.errorText error) error
      | .ok captured =>
        stageTerminal setting world validation.terminal captured 0
        stageState setting world validation.terminal request.terminalState
        transition setting world .frozenReadout .finalizing none

/-! ## Publication -/

/-- `finish_published`: the facts of the manifest, which the publisher marks as published. -/
def finishPublished (published : VerifiedPublishedRecording) : RecordM VerifiedPublishedRecording := do
  transition setting world .finalizing .published
    (some { terminalFromBundle published with publication := .published })
  return published

def finalize (validation : RecordingValidationInput) (wireError : Option LinkError) :
    RecordM VerifiedPublishedRecording := do
  if validation.fStart = validation.fEnd ∨ world.sink.firstFrame.isNone then
    transition setting world .finalizing .publicationFailed
      (some (terminalSummary validation.terminal .failed none none
        ((wireError.map setting.linkText).or world.sink.error)))
    throw (wireError.elim (.terminal "recording produced no verifiable frame origin") .link)
  else match world.publish validation with
    | .error error =>
      transition setting world .finalizing .publicationFailed
        (some (failedPublicationSummary validation.terminal error))
      throw (.publish error)
    | .ok published => finishPublished setting world published

def closable : CaptureState → Bool
  | .arming | .armed | .recording => true
  | _ => false

/-- `record_window` once it has its terminal facts. -/
def conclude (report : RecordingValidationInput × Option LinkError) : RecordM VerifiedPublishedRecording := do
  let validation := { report.1 with terminal := applySinks world report.1.terminal }
  readout setting world validation report.2
  finalize setting world validation report.2

/-- `record_window` after the notices. -/
def closeWindow : RecordM VerifiedPublishedRecording := do
  match ← capsuleCall setting world setting.repository.read with
  | none => throw (.terminal "capture capsule disappeared")
  | some capsule =>
    RecordM.ensure (closable capsule.state)
      (.terminal ("capture reached unexpected state " ++ capsule.state.debug ++ " before closing"))
    transition setting world capsule.state .closing none
    let report ← RecordM.ofExcept (terminalReport setting world)
    conclude setting world report

/-- `record_window` from the first notice on. -/
def recordWindow (store : RecordStore) : Except RecordWindowError VerifiedPublishedRecording × RecordStore :=
  closeWindow setting world (afterNotices setting world store)

end window

end Emucap.Live
