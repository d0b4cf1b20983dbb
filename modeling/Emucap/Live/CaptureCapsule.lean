import Emucap.Bundle.RecordingManifest
import Emucap.Lib.Interleave
import Emucap.Live.ContinuityState

/-!
# The capture capsule

The durable record of a recording in progress (`live/capture_capsule.rs`). Each call first looks at the store, the
lease and the file system, and then updates the capsule under its lock: a program over `CaptureOp`.
-/

namespace Emucap.Live

open Emucap.Bundle Emucap.Lib

/-! ## The record -/

inductive CaptureState where
  | prepared
  | arming
  | armed
  | recording
  | closing
  | frozenReadout
  | finalizing
  | published
  | publicationFailed
  deriving DecidableEq

namespace CaptureState

def isTerminal : CaptureState → Bool
  | .published | .publicationFailed => true
  | _ => false

def permits : CaptureState → CaptureState → Bool
  | .prepared, .arming | .prepared, .publicationFailed => true
  | .arming, .armed | .arming, .closing | .arming, .publicationFailed => true
  | .armed, .recording | .armed, .closing | .armed, .publicationFailed => true
  | .recording, .closing | .recording, .publicationFailed => true
  | .closing, .frozenReadout | .closing, .finalizing | .closing, .publicationFailed => true
  | .frozenReadout, .finalizing | .frozenReadout, .publicationFailed => true
  | .finalizing, .published | .finalizing, .publicationFailed => true
  | _, _ => false

def debug : CaptureState → String
  | .prepared => "Prepared"
  | .arming => "Arming"
  | .armed => "Armed"
  | .recording => "Recording"
  | .closing => "Closing"
  | .frozenReadout => "FrozenReadout"
  | .finalizing => "Finalizing"
  | .published => "Published"
  | .publicationFailed => "PublicationFailed"

end CaptureState

structure FilesystemIdentity where
  canonicalPath : String
  device : Option ℕ
  inode : Option ℕ
  createdAt : Option ℕ
  deriving DecidableEq

/-- `matches`, against the identity the path has now. -/
def FilesystemIdentity.agrees (self current : FilesystemIdentity) : Bool :=
  self.canonicalPath == current.canonicalPath &&
    self.device.isSome && self.device == current.device &&
    self.inode.isSome && self.inode == current.inode &&
    self.createdAt.isSome && self.createdAt == current.createdAt

structure CaptureLeaseIdentity where
  controlSessionKey : Option String
  holder : ProcessIdentity
  deriving DecidableEq

structure CaptureProgress where
  sequence : ℕ
  frame : ℕ
  frames : Option ℕ
  events : ℕ
  bytes : ℕ
  observedAtUnixMs : ℕ
  deriving DecidableEq

structure CaptureTerminalSummary where
  operationOutcome : OperationOutcome
  executionOutcome : ExecutionOutcome
  integrity : Integrity
  publication : PublicationOutcome
  finalExecutionState : FinalExecutionState
  finalFrame : ℕ
  counters : RecordingCounters
  cleanup : CleanupFacts
  stopEvent : Option EventStopFacts
  bundlePath : Option String
  manifestSha256 : Option String
  reason : Option String
  deriving DecidableEq

def CaptureTerminalSummary.cleanupSafe (t : CaptureTerminalSummary) : Bool :=
  let safe : CleanupState → Bool
    | .released | .notAcquired | .generationTerminated => true
    | .unverifiable => false
  let resourcesSafe := safe t.cleanup.hooks && safe t.cleanup.transientInput && safe t.cleanup.sink
  let noResourcesAcquired := t.cleanup.hooks == .notAcquired &&
    t.cleanup.transientInput == .notAcquired && t.cleanup.sink == .notAcquired
  resourcesSafe && (noResourcesAcquired ||
    t.finalExecutionState == .frozen || t.finalExecutionState == .terminated)

structure CaptureCapsule where
  schemaVersion : ℕ
  captureId : String
  launchId : String
  requestDigestSha256 : String
  capabilityRevision : String
  outputRoot : String
  destinationPath : String
  stagingPath : String
  outputRootIdentity : FilesystemIdentity
  stagingIdentity : FilesystemIdentity
  stagingOwner : Option String
  lease : CaptureLeaseIdentity
  state : CaptureState
  progress : Option CaptureProgress
  terminal : Option CaptureTerminalSummary
  createdAtUnixMs : ℕ
  updatedAtUnixMs : ℕ
  deriving DecidableEq

structure CapturePreparation where
  captureId : String
  requestDigestSha256 : String
  capabilityRevision : String
  outputRoot : FsPath
  destinationPath : FsPath
  stagingPath : FsPath
  lease : CaptureLeaseIdentity
  deriving DecidableEq

inductive CaptureCapsuleError where
  | io (e : IoError)
  | generationMismatch (expected : String) (actual : Option String)
  | leaseMismatch
  | invalid (message : String)
  | activeCapture (captureId : String) (state : CaptureState)
  | invalidTransition (source target : CaptureState)
  | recoveryBlocked (message : String)
  deriving DecidableEq

inductive ReconcileOutcome where
  | alreadyTerminal
  | published
  | quarantined
  deriving DecidableEq

structure VerifiedPublishedRecording where
  bundlePath : FsPath
  manifestSha256 : String
  manifest : RecordingManifest
  deriving DecidableEq

def captureCapsuleSchemaVersion : ℕ := 1

namespace CaptureCapsule

def generationMutationBlocker (c : CaptureCapsule) : Option String :=
  if !c.state.isTerminal then
    some ("capture remains nonterminal in " ++ c.state.debug)
  else match c.terminal with
    | some terminal =>
      if terminal.cleanupSafe then none
      else some ("capture is terminal in " ++ c.state.debug ++
        ", but cleanup or final execution state is unverifiable")
    | none => some ("capture is terminal in " ++ c.state.debug ++ " without terminal cleanup facts")

theorem generationMutationBlocker_eq_none {c : CaptureCapsule} : c.generationMutationBlocker = none ↔
    c.state.isTerminal = true ∧ ∃ t, c.terminal = some t ∧ t.cleanupSafe = true := by
  unfold generationMutationBlocker
  cases hstate : c.state.isTerminal with
  | false => simp
  | true =>
    rcases hterminal : c.terminal with _ | t
    · simp
    · cases hsafe : t.cleanupSafe with
      | false => simp [hsafe]
      | true => simp [hsafe]

/-- `validate_size`, for the encoded size of a capsule. -/
def validateSize (bytes : CaptureCapsule → Option ℕ) (c : CaptureCapsule) : Except CaptureCapsuleError Unit :=
  let oversized : Bool := match bytes c with
    | none => true
    | some size => maxCapsuleFileBytes < size
  if c.schemaVersion ≠ captureCapsuleSchemaVersion ∨ oversized then
    .error (.invalid "capture capsule schema or size is invalid")
  else .ok ()

end CaptureCapsule

/-- `to_io`, the `Display` text of an invalid capsule included. -/
def CaptureCapsuleError.toIo : CaptureCapsuleError → IoError
  | .invalid message => ⟨.invalidData, "capture identity or path is invalid: " ++ message⟩
  | _ => ⟨.invalidData, "capture capsule error"⟩

def terminalFromBundle (bundle : VerifiedPublishedRecording) : CaptureTerminalSummary where
  operationOutcome := bundle.manifest.terminal.operationOutcome
  executionOutcome := bundle.manifest.terminal.executionOutcome
  integrity := bundle.manifest.terminal.integrity
  publication := bundle.manifest.terminal.publication
  finalExecutionState := bundle.manifest.terminal.finalExecutionState
  finalFrame := bundle.manifest.terminal.finalFrame
  counters := bundle.manifest.counters
  cleanup := bundle.manifest.cleanup
  stopEvent := bundle.manifest.terminal.stopEvent
  bundlePath := some bundle.bundlePath.display
  manifestSha256 := some bundle.manifestSha256
  reason := bundle.manifest.terminal.reason

def generationTerminatedSummary : CaptureTerminalSummary where
  operationOutcome := .failed
  executionOutcome := .emulatorExited
  integrity := .unverifiable
  publication := .failed
  finalExecutionState := .terminated
  finalFrame := 0
  counters := ⟨0, 0, 0, 0⟩
  cleanup := ⟨.generationTerminated, .generationTerminated, .generationTerminated⟩
  stopEvent := none
  bundlePath := none
  manifestSha256 := none
  reason := some "capture owner exited with its emulator generation"

def isAsciiHexDigit (c : Char) : Bool :=
  c.isDigit || ('a' ≤ c && c ≤ 'f') || ('A' ≤ c && c ≤ 'F')

def validateDigest (name value : String) : Except CaptureCapsuleError Unit :=
  if value.utf8ByteSize = 64 ∧ value.toList.all isAsciiHexDigit then .ok ()
  else .error (.invalid (name ++ " must be a SHA-256"))

def validateCaptureId (value : String) : Except CaptureCapsuleError Unit :=
  if isHyphenatedAsciiId value 96 then .ok () else .error (.invalid "invalid capture_id")

/-! ## Operations -/

/-- What the capture code asks of its surroundings. `update` gets the clock and the stored capsule. -/
inductive CaptureOp where
  | read
  | readCurrent (port : ℕ)
  | readLink
  | processState (p : ProcessIdentity)
  | canonicalize (p : FsPath)
  | pathExists (p : FsPath)
  | identity (p : FsPath)
  | createStagingOwner (p : FsPath)
  | stagingOwner (p : FsPath)
  | ulid
  | rename (source target : FsPath)
  | now
  | update (f : ℕ → Option CaptureCapsule → Except IoError CaptureCapsule)

abbrev CaptureOp.Reply : CaptureOp → Type
  | .read => Except IoError (Option CaptureCapsule)
  | .readCurrent _ => Except IoError (Option CurrentManifest)
  | .readLink => Except IoError (Option LinkRecord)
  | .processState _ => ProcessState
  | .canonicalize _ => Except IoError FsPath
  | .pathExists _ => Bool
  | .identity _ => Except IoError FilesystemIdentity
  | .createStagingOwner _ => Except IoError String
  | .stagingOwner _ => Except IoError (Option String)
  | .ulid => String
  | .rename _ _ => Except IoError Unit
  | .now => ℕ
  | .update _ => Except IoError CaptureCapsule

/-- The surroundings of one operation. -/
structure CaptureWorld where
  readCapture : Except IoError Unit
  current : Except IoError (Option CurrentManifest)
  link : Except IoError (Option LinkRecord)
  processState : ProcessIdentity → ProcessState
  canonicalize : FsPath → Except IoError FsPath
  pathExists : FsPath → Bool
  identity : FsPath → Except IoError FilesystemIdentity
  createStagingOwner : Except IoError String
  stagingOwner : Except IoError (Option String)
  ulid : String
  rename : Except IoError Unit
  now : ℕ
  locked : Locked

abbrev CaptureCall := ExceptT CaptureCapsuleError (Prog CaptureOp CaptureOp.Reply)

/-- `?` on an I/O result. -/
def liftIo {α : Type} (r : Except IoError α) : Except CaptureCapsuleError α := r.mapError .io

namespace CaptureCall

def readCurrent (port : ℕ) : CaptureCall (Option CurrentManifest) :=
  Prog.attempt (CaptureOp.readCurrent port) liftIo

def readLink : CaptureCall (Option LinkRecord) := Prog.attempt CaptureOp.readLink liftIo

def processState (p : ProcessIdentity) : CaptureCall ProcessState :=
  ExceptT.lift (Prog.issue (CaptureOp.processState p))

def canonicalize (p : FsPath) : CaptureCall FsPath := Prog.attempt (CaptureOp.canonicalize p) liftIo

def pathExists (p : FsPath) : CaptureCall Bool := ExceptT.lift (Prog.issue (CaptureOp.pathExists p))

def identity (p : FsPath) : CaptureCall FilesystemIdentity := Prog.attempt (CaptureOp.identity p) liftIo

def createStagingOwner (p : FsPath) : CaptureCall String :=
  Prog.attempt (CaptureOp.createStagingOwner p) liftIo

def stagingOwner (p : FsPath) : CaptureCall (Option String) := Prog.attempt (CaptureOp.stagingOwner p) liftIo

def ulid : CaptureCall String := ExceptT.lift (Prog.issue CaptureOp.ulid)

def rename (source target : FsPath) : CaptureCall Unit :=
  Prog.attempt (CaptureOp.rename source target) liftIo

def now : CaptureCall ℕ := ExceptT.lift (Prog.issue CaptureOp.now)

end CaptureCall

structure CaptureCapsuleRepository where
  port : ℕ
  launchId : String
  deriving DecidableEq

namespace CaptureCapsuleRepository

open CaptureCall

section calls

variable (bytes : CaptureCapsule → Option ℕ) (self : CaptureCapsuleRepository)

def read : CaptureCall (Option CaptureCapsule) := do
  Prog.ofExcept (liftIo (validateLaunchId self.launchId))
  Prog.attempt CaptureOp.read liftIo

def updateCaptureJson (f : ℕ → Option CaptureCapsule → Except IoError CaptureCapsule) :
    Prog CaptureOp CaptureOp.Reply (Except IoError CaptureCapsule) :=
  match validateLaunchId self.launchId with
  | .error e => .pure (.error e)
  | .ok () => Prog.issue (CaptureOp.update f)

def verifyGenerationAndLease (expected : CaptureLeaseIdentity) (requireAlive : Bool) : CaptureCall Unit := do
  let current ← readCurrent self.port
  match current.filter (fun c => c.launchId == self.launchId) with
  | none => throw (.generationMismatch self.launchId (current.map CurrentManifest.launchId))
  | some current =>
    let state ← (if requireAlive then processState current.emulator else pure .alive : CaptureCall _)
    Prog.failIf (state ≠ .alive) (.recoveryBlocked "runtime generation is not provably alive")
    Prog.ofExcept (liftIo (validateLaunchId self.launchId))
    let link ← readLink
    let exact := (link.bind LinkRecord.lease).any fun lease =>
      lease.holder == expected.holder && lease.controlSessionKey == expected.controlSessionKey
    Prog.failIf (!exact) .leaseMismatch

def createUpdate (next : CaptureCapsule) (_now : ℕ) (current : Option CaptureCapsule) :
    Except IoError CaptureCapsule :=
  match current with
  | none => .ok next
  | some current =>
    if current.generationMutationBlocker.isSome then
      .error ⟨.wouldBlock,
        "capture " ++ current.captureId ++ " blocks a new capture in " ++ current.state.debug⟩
    else .ok next

def create (p : CapturePreparation) : CaptureCall CaptureCapsule := do
  Prog.ofExcept (validateDigest "request_digest_sha256" p.requestDigestSha256)
  Prog.ofExcept (validateDigest "capability_revision" p.capabilityRevision)
  Prog.ofExcept (validateCaptureId p.captureId)
  self.verifyGenerationAndLease p.lease true
  let outputRoot ← canonicalize p.outputRoot
  let destinationParent ← Prog.ofExcept
    (p.destinationPath.parent.elim (.error (.invalid "destination path has no parent")) .ok)
  let destinationRoot ← canonicalize destinationParent
  Prog.failIf (destinationRoot ≠ outputRoot ∨ p.destinationPath.fileName ≠ some p.captureId)
    (.invalid "destination is not the generated child of output_root")
  let stagingParent ← Prog.ofExcept
    (p.stagingPath.parent.elim (.error (.invalid "staging path has no parent")) .ok)
  let stagingName := p.stagingPath.fileName.getD ""
  let stagingRoot ← canonicalize stagingParent
  Prog.failIf (stagingRoot ≠ outputRoot ∨
      !("." ++ p.captureId ++ ".staging-").toList.isPrefixOf stagingName.toList)
    (.invalid "staging is not the generated adjacent directory")
  let taken ← pathExists p.destinationPath
  Prog.failIf taken (.invalid "capture destination already exists")
  let outputRootIdentity ← identity outputRoot
  let stagingIdentity ← identity p.stagingPath
  let stagingOwner ← createStagingOwner p.stagingPath
  let now ← now
  let capsule : CaptureCapsule :=
    { schemaVersion := captureCapsuleSchemaVersion
      captureId := p.captureId
      launchId := self.launchId
      requestDigestSha256 := p.requestDigestSha256
      capabilityRevision := p.capabilityRevision
      outputRoot := outputRoot.display
      destinationPath := (outputRoot.join p.captureId).display
      stagingPath := stagingIdentity.canonicalPath
      outputRootIdentity := outputRootIdentity
      stagingIdentity := stagingIdentity
      stagingOwner := some stagingOwner
      lease := p.lease
      state := .prepared
      progress := none
      terminal := none
      createdAtUnixMs := now
      updatedAtUnixMs := now }
  Prog.ofExcept (capsule.validateSize bytes)
  let stored ← ExceptT.lift (self.updateCaptureJson (createUpdate capsule))
  match stored with
  | .ok created => pure created
  | .error e =>
    if e.kind = .wouldBlock then
      match ← self.read with
      | none => throw (.invalid "active capture disappeared during conflict reporting")
      | some current => throw (.activeCapture current.captureId current.state)
    else throw (.io e)

/-- The end of every update: the clock, and the size of what is to be stored. -/
def stamp (now : ℕ) (c : CaptureCapsule) : Except IoError CaptureCapsule :=
  let c := { c with updatedAtUnixMs := now }
  match c.validateSize bytes with
  | .ok () => .ok c
  | .error e => .error e.toIo

def transitionUpdate (captureId : String) (expected next : CaptureState)
    (terminal : Option CaptureTerminalSummary) (now : ℕ) (current : Option CaptureCapsule) :
    Except IoError CaptureCapsule :=
  match current with
  | none => .error ⟨.notFound, "capture capsule is missing"⟩
  | some current =>
    if current.captureId ≠ captureId ∨ current.launchId ≠ self.launchId ∨ current.state ≠ expected then
      .error ⟨.wouldBlock, "capture identity or state changed"⟩
    else stamp bytes now { current with state := next, terminal := terminal }

def transition (captureId : String) (expected next : CaptureState)
    (terminal : Option CaptureTerminalSummary) : CaptureCall CaptureCapsule := do
  match ← self.read with
  | none => throw (.invalid "capture capsule is missing")
  | some observed =>
    Prog.failIf (observed.captureId ≠ captureId ∨ observed.state ≠ expected)
      (.invalid "capture identity or expected state changed")
    self.verifyGenerationAndLease observed.lease false
    Prog.failIf (!expected.permits next) (.invalidTransition expected next)
    Prog.failIf (next.isTerminal != terminal.isSome)
      (.invalid "terminal summary must exist exactly for a terminal state")
    let updated ← ExceptT.lift (self.updateCaptureJson
      (self.transitionUpdate bytes captureId expected next terminal))
    Prog.ofExcept (liftIo updated)

/-- The progress rule of `update_progress`. -/
def regressed (previous progress : CaptureProgress) : Bool :=
  progress.sequence ≤ previous.sequence ||
    progress.frame < previous.frame ||
    (match previous.frames, progress.frames with
      | some previous, some current => current < previous
      | _, _ => false) ||
    (previous.frames.isSome && progress.frames.isNone) ||
    progress.events < previous.events ||
    progress.bytes < previous.bytes

def isActive : CaptureState → Bool
  | .armed | .recording => true
  | _ => false

def progressUpdate (captureId : String) (progress : CaptureProgress) (now : ℕ)
    (current : Option CaptureCapsule) : Except IoError CaptureCapsule :=
  match current with
  | none => .error ⟨.notFound, "capture capsule is missing"⟩
  | some current =>
    if current.captureId ≠ captureId ∨ !isActive current.state then
      .error ⟨.wouldBlock, "capture is not the active recording"⟩
    else if current.progress.any (regressed · progress) then
      .error ⟨.invalidData, "capture progress regressed"⟩
    else stamp bytes now { current with progress := some progress }

def updateProgress (captureId : String) (progress : CaptureProgress) : CaptureCall CaptureCapsule := do
  match ← self.read with
  | none => throw (.invalid "capture capsule is missing")
  | some observed =>
    Prog.failIf (observed.captureId ≠ captureId ∨ !isActive observed.state)
      (.invalid "capture is not the exact active recording")
    self.verifyGenerationAndLease observed.lease false
    let updated ← ExceptT.lift (self.updateCaptureJson (progressUpdate bytes captureId progress))
    Prog.ofExcept (liftIo updated)

def checkRecoveryEligibility (capsule : CaptureCapsule) (currentLease : CaptureLeaseIdentity) :
    CaptureCall Unit := do
  let holder ← processState capsule.lease.holder
  Prog.failIf (holder ≠ .exited) (.recoveryBlocked "former capture lease holder exit is not proven")
  self.verifyGenerationAndLease currentLease false

def forceUpdate (captureId launchId : String) (state : CaptureState) (terminal : CaptureTerminalSummary)
    (now : ℕ) (current : Option CaptureCapsule) : Except IoError CaptureCapsule :=
  match current with
  | none => .error ⟨.notFound, "capture capsule is missing"⟩
  | some current =>
    if current.captureId ≠ captureId ∨ current.launchId ≠ launchId ∨ current.state.isTerminal then
      .error ⟨.wouldBlock, "capture changed during reconciliation"⟩
    else stamp bytes now { current with state := state, terminal := some terminal }

def forceTerminal (capsule : CaptureCapsule) (state : CaptureState) (terminal : CaptureTerminalSummary) :
    CaptureCall CaptureCapsule := do
  let updated ← ExceptT.lift (self.updateCaptureJson
    (forceUpdate bytes capsule.captureId capsule.launchId state terminal))
  Prog.ofExcept (liftIo updated)

/-- The emulator of the current generation has exited. -/
def generationTerminated : CaptureCall Bool := do
  match ← readCurrent self.port with
  | none => pure false
  | some current =>
    let state ← processState current.emulator
    pure (state == .exited)

/-- The facts to close an abandoned capture with: those of the adapter if they prove cleanup, else those
of a generation that has ended. -/
def abandonedTerminal (adapterTerminal : Option CaptureTerminalSummary) (generationTerminated : Bool) :
    Except CaptureCapsuleError CaptureTerminalSummary :=
  match adapterTerminal.filter CaptureTerminalSummary.cleanupSafe with
  | some terminal => .ok terminal
  | none =>
    if generationTerminated then .ok generationTerminatedSummary
    else .error (.recoveryBlocked "adapter cleanup and generation termination are both unproven")

/-- `staging_owner_matches`, from the content of the owner member. -/
def stagingOwnerMatches (expected content : Option String) : Bool :=
  match expected.filter (fun token => token.utf8ByteSize == 26) with
  | none => false
  | some expected => content == some expected

/-- The staging directory of an abandoned capture is moved aside, if it is still the capture's own. -/
def quarantineStaging (capsule : CaptureCapsule) (terminal : CaptureTerminalSummary) :
    CaptureCall CaptureTerminalSummary := do
  let staging := FsPath.new capsule.stagingPath
  let root := FsPath.new capsule.outputRoot
  let there ← pathExists staging
  if !there then
    return terminal
  let stagingIdentity ← identity staging
  Prog.failIf (!capsule.stagingIdentity.agrees stagingIdentity)
    (.recoveryBlocked "staging filesystem identity changed")
  let owner ← stagingOwner staging
  Prog.failIf (!stagingOwnerMatches capsule.stagingOwner owner)
    (.recoveryBlocked "staging filesystem identity changed")
  let rootIdentity ← identity root
  Prog.failIf (!capsule.outputRootIdentity.agrees rootIdentity)
    (.recoveryBlocked "output root filesystem identity changed")
  let ulid ← ulid
  let quarantine := root.join ("." ++ capsule.captureId ++ ".invalid-" ++ ulid)
  rename staging quarantine
  return { terminal with reason := some ("abandoned staging quarantined at " ++ quarantine.display) }

def reconcile (currentLease : CaptureLeaseIdentity) (verifiedBundle : Option VerifiedPublishedRecording)
    (adapterTerminal : Option CaptureTerminalSummary) : CaptureCall ReconcileOutcome := do
  match ← self.read with
  | none => throw (.recoveryBlocked "capture capsule is missing")
  | some capsule =>
    if capsule.state.isTerminal then
      return .alreadyTerminal
    self.checkRecoveryEligibility capsule currentLease
    match verifiedBundle with
    | some bundle =>
      Prog.failIf (bundle.manifest.captureId ≠ capsule.captureId ∨
          bundle.manifest.requestDigestSha256 ≠ capsule.requestDigestSha256 ∨
          bundle.manifest.runtime.launchId ≠ capsule.launchId ∨
          bundle.manifest.runtime.capabilityRevision ≠ capsule.capabilityRevision ∨
          bundle.bundlePath ≠ FsPath.new capsule.destinationPath)
        (.recoveryBlocked "published bundle identity does not match the abandoned capture")
      let _ ← self.forceTerminal bytes capsule .published (terminalFromBundle bundle)
      return .published
    | none =>
      let destination ← pathExists (FsPath.new capsule.destinationPath)
      Prog.failIf destination (.recoveryBlocked "an unverified destination exists")
      let generationTerminated ← self.generationTerminated
      let terminal ← Prog.ofExcept (abandonedTerminal adapterTerminal generationTerminated)
      -- Without a verified bundle the adapter's status cannot establish complete evidence.
      let terminal ← quarantineStaging capsule { terminal with integrity := .unverifiable }
      let _ ← self.forceTerminal bytes capsule .publicationFailed { terminal with publication := .failed }
      return .quarantined

end calls

end CaptureCapsuleRepository

end Emucap.Live
