import Mathlib.Data.Nat.Notation

/-!
# The recording manifest

The records of `bundle/recording_manifest.rs`: what a recording was asked to observe, the scope it was
observed in, and the facts it ended with. Every number is a `u64` of the source.
-/

namespace Emucap.Bundle

/-! ## Requests -/

structure ContentIdentity where
  sha1 : Option String
  sha256 : Option String
  bytes : ℕ
  pathHint : Option String
  deriving DecidableEq

structure RuntimeIdentity where
  system : String
  adapterId : String
  serverBuild : String
  adapterBuild : String
  emulatorId : String
  emulatorBuild : String
  emulatorUpstreamRevision : String
  emulatorPatchsetSha256 : String
  launchId : String
  capabilityRevision : String
  content : ContentIdentity
  deriving DecidableEq

structure EventClassIdentity where
  id : String
  contractSha256 : String
  deriving DecidableEq

inductive EventFilterTerm where
  | u64Range (path : String) (start length : ℕ)
  deriving DecidableEq

def EventFilterTerm.path : EventFilterTerm → String
  | .u64Range path _ _ => path

structure EventClassFilter where
  eventClass : String
  terms : List EventFilterTerm
  deriving DecidableEq

inductive EventArmingScope where
  | transaction
  | observation
  deriving DecidableEq

structure EventClassArming where
  id : String
  scope : EventArmingScope
  deriving DecidableEq

structure RecordingLimits where
  maxFrames : ℕ
  maxEvents : ℕ
  maxBytes : ℕ
  maxLineBytes : ℕ
  maxHostMs : ℕ
  progressIntervalMs : ℕ
  deriving DecidableEq

structure InputMovieIdentity where
  format : String
  port : ℕ
  frames : ℕ
  bytes : ℕ
  sha256 : String
  deriving DecidableEq

structure StateArtifactIdentity where
  format : String
  bytes : ℕ
  sha256 : String
  deriving DecidableEq

inductive FinalExecutionState where
  | frozen
  | terminated
  | unknown
  deriving DecidableEq

inductive StateSnapshotBoundary where
  | frameBoundary
  | instructionBoundary
  deriving DecidableEq

structure StateSnapshotFrozenFacts where
  state : FinalExecutionState
  frame : ℕ
  boundary : StateSnapshotBoundary
  deriving DecidableEq

structure StateSnapshotReceipt where
  snapshotId : String
  snapshot : StateArtifactIdentity
  source : RuntimeIdentity
  frozen : StateSnapshotFrozenFacts
  deriving DecidableEq

structure EventStopCondition where
  eventClass : String
  occurrence : ℕ
  deriving DecidableEq

structure EventStartCondition where
  eventClass : String
  deriving DecidableEq

/-- `InitialSnapshotRequest` and `TerminalSnapshotRequest`. -/
structure SnapshotRequest where
  label : String
  memoryType : String
  address : ℕ
  length : ℕ
  deriving DecidableEq

structure TerminalStateRequest where
  profile : String
  contractSha256 : String
  deriving DecidableEq

structure RecordingRequest where
  frames : ℕ
  warmupFrames : ℕ
  eventClasses : List EventClassIdentity
  eventFilters : List EventClassFilter
  eventArming : List EventClassArming
  limits : RecordingLimits
  inputMovie : Option InputMovieIdentity
  initialState : Option StateSnapshotReceipt
  stopOn : Option EventStopCondition
  startOn : Option EventStartCondition
  initialSnapshots : List SnapshotRequest
  terminalSnapshots : List SnapshotRequest
  terminalState : Option TerminalStateRequest
  deriving DecidableEq

/-! ## Scopes -/

structure ObservationStartFacts where
  sequence : ℕ
  eventClass : String
  contractSha256 : String
  frame : ℕ
  clockDomain : String
  clockTick : ℕ
  deriving DecidableEq

inductive EventOrder where
  | guestEmission
  deriving DecidableEq

inductive RecordingOrigin where
  | nextFrameBoundary
  | resetRelease
  | stateLoad
  deriving DecidableEq

structure EffectiveScope where
  origin : RecordingOrigin
  fOrigin : Option ℕ
  fStart : ℕ
  fEnd : ℕ
  clockDomains : List String
  eventOrder : Option EventOrder
  observationStart : Option ObservationStartFacts
  deriving DecidableEq

/-! ## Terminal facts -/

structure FrameInterval where
  fStart : ℕ
  fEnd : ℕ
  deriving DecidableEq

structure EventClassTerminalFacts where
  id : String
  armed : Bool
  armedInterval : Option FrameInterval
  observed : ℕ
  dropped : ℕ
  deriving DecidableEq

structure EventStopFacts where
  sequence : ℕ
  eventClass : String
  clockDomain : String
  clockTick : ℕ
  frame : ℕ
  occurrence : ℕ
  deriving DecidableEq

inductive OperationOutcome where
  | completed
  | interrupted
  | aborted
  | failed
  deriving DecidableEq

inductive ExecutionOutcome where
  | targetReached
  | eventStop
  | emulatorExited
  | generationChanged
  | adapterError
  | lossDetected
  deriving DecidableEq

inductive Integrity where
  | complete
  | lossy
  | unverifiable
  deriving DecidableEq

inductive PublicationOutcome where
  | published
  | failed
  deriving DecidableEq

structure TerminalFacts where
  operationOutcome : OperationOutcome
  executionOutcome : ExecutionOutcome
  integrity : Integrity
  publication : PublicationOutcome
  finalExecutionState : FinalExecutionState
  finalFrame : ℕ
  stopEvent : Option EventStopFacts
  reason : Option String
  eventClasses : List EventClassTerminalFacts
  deriving DecidableEq

structure RecordingCounters where
  frames : ℕ
  events : ℕ
  bytes : ℕ
  dropped : ℕ
  deriving DecidableEq

structure LossFacts where
  dropped : ℕ
  truncated : Bool
  firstSequenceGap : Option ℕ
  deriving DecidableEq

inductive CleanupState where
  | released
  | notAcquired
  | generationTerminated
  | unverifiable
  deriving DecidableEq

structure CleanupFacts where
  hooks : CleanupState
  transientInput : CleanupState
  sink : CleanupState
  deriving DecidableEq

/-- The fields of a manifest that recovery compares and copies. -/
structure RecordingManifest where
  captureId : String
  requestDigestSha256 : String
  runtime : RuntimeIdentity
  terminal : TerminalFacts
  counters : RecordingCounters
  cleanup : CleanupFacts
  deriving DecidableEq

end Emucap.Bundle
