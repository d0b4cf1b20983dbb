import Emucap.Bundle.RecordingManifest
import Emucap.Lib.Checked
import Emucap.Lib.JsonText

/-!
# The manifest of a recording bundle

The whole manifest of format version 2. `Manifest.toJson` is the document that serde writes, and `Manifest.text` the
file: the pretty-printed document and a newline. `parseManifest` looks at the version first.
-/

namespace Emucap.Bundle

open Emucap.Lib

def recordingFormatVersion : ℕ := 2

def legacyFormatVersion : ℕ := 1

inductive CaptureKind where
  | recordWindow
  deriving DecidableEq

inductive MemberRole where
  | events
  | inputMovie
  | initialState
  | initialSnapshot
  | terminalSnapshot
  | terminalState
  deriving DecidableEq

structure MemberDescriptor where
  role : MemberRole
  path : String
  sha256 : String
  bytes : ℕ
  records : Option ℕ
  deriving DecidableEq

structure Manifest extends RecordingManifest where
  formatVersion : ℕ
  captureKind : CaptureKind
  createdAtUnixMs : ℕ
  request : RecordingRequest
  scope : EffectiveScope
  loss : LossFacts
  members : List MemberDescriptor
  deriving DecidableEq

/-! ## The document -/

section json

def optionalField {α : Type} (key : String) (toJson : α → Json) : Option α → List (String × Json)
  | none => []
  | some value => [(key, toJson value)]

/-- A field that is left out where it is an empty list. -/
def listField {α : Type} (key : String) (toJson : α → Json) (items : List α) : List (String × Json) :=
  if items = [] then [] else [(key, .arr (items.map toJson))]

def nullable {α : Type} (toJson : α → Json) : Option α → Json
  | none => .null
  | some value => toJson value

def ContentIdentity.toJson (content : ContentIdentity) : Json :=
  .obj [("sha1", nullable .str content.sha1), ("sha256", nullable .str content.sha256),
    ("bytes", .nat content.bytes), ("path_hint", nullable .str content.pathHint)]

def RuntimeIdentity.toJson (runtime : RuntimeIdentity) : Json :=
  .obj [("system", .str runtime.system), ("adapter_id", .str runtime.adapterId),
    ("server_build", .str runtime.serverBuild), ("adapter_build", .str runtime.adapterBuild),
    ("emulator_id", .str runtime.emulatorId), ("emulator_build", .str runtime.emulatorBuild),
    ("emulator_upstream_revision", .str runtime.emulatorUpstreamRevision),
    ("emulator_patchset_sha256", .str runtime.emulatorPatchsetSha256), ("launch_id", .str runtime.launchId),
    ("capability_revision", .str runtime.capabilityRevision), ("content", runtime.content.toJson)]

def EventClassIdentity.toJson (identity : EventClassIdentity) : Json :=
  .obj [("id", .str identity.id), ("contract_sha256", .str identity.contractSha256)]

def EventFilterTerm.toJson : EventFilterTerm → Json
  | .u64Range path start length =>
    .obj [("kind", .str "u64_range"), ("path", .str path), ("start", .nat start), ("length", .nat length)]

def EventClassFilter.toJson (filter : EventClassFilter) : Json :=
  .obj [("event_class", .str filter.eventClass), ("terms", .arr (filter.terms.map EventFilterTerm.toJson))]

def EventArmingScope.text : EventArmingScope → String
  | .transaction => "transaction"
  | .observation => "observation"

def EventClassArming.toJson (arming : EventClassArming) : Json :=
  .obj [("id", .str arming.id), ("scope", .str arming.scope.text)]

def RecordingLimits.toJson (limits : RecordingLimits) : Json :=
  .obj [("max_frames", .nat limits.maxFrames), ("max_events", .nat limits.maxEvents),
    ("max_bytes", .nat limits.maxBytes), ("max_line_bytes", .nat limits.maxLineBytes),
    ("max_host_ms", .nat limits.maxHostMs), ("progress_interval_ms", .nat limits.progressIntervalMs)]

def InputMovieIdentity.toJson (identity : InputMovieIdentity) : Json :=
  .obj [("format", .str identity.format), ("port", .nat identity.port), ("frames", .nat identity.frames),
    ("bytes", .nat identity.bytes), ("sha256", .str identity.sha256)]

def StateArtifactIdentity.toJson (identity : StateArtifactIdentity) : Json :=
  .obj [("format", .str identity.format), ("bytes", .nat identity.bytes), ("sha256", .str identity.sha256)]

def FinalExecutionState.text : FinalExecutionState → String
  | .frozen => "frozen"
  | .terminated => "terminated"
  | .unknown => "unknown"

def StateSnapshotBoundary.text : StateSnapshotBoundary → String
  | .frameBoundary => "frame_boundary"
  | .instructionBoundary => "instruction_boundary"

def StateSnapshotFrozenFacts.toJson (facts : StateSnapshotFrozenFacts) : Json :=
  .obj [("state", .str facts.state.text), ("frame", .nat facts.frame), ("boundary", .str facts.boundary.text)]

def StateSnapshotReceipt.toJson (receipt : StateSnapshotReceipt) : Json :=
  .obj [("snapshot_id", .str receipt.snapshotId), ("snapshot", receipt.snapshot.toJson),
    ("source", receipt.source.toJson), ("frozen", receipt.frozen.toJson)]

def EventStopCondition.toJson (condition : EventStopCondition) : Json :=
  .obj [("event_class", .str condition.eventClass), ("occurrence", .nat condition.occurrence)]

def EventStartCondition.toJson (condition : EventStartCondition) : Json :=
  .obj [("event_class", .str condition.eventClass)]

def SnapshotRequest.toJson (snapshot : SnapshotRequest) : Json :=
  .obj [("label", .str snapshot.label), ("memory_type", .str snapshot.memoryType),
    ("address", .nat snapshot.address), ("length", .nat snapshot.length)]

def TerminalStateRequest.toJson (request : TerminalStateRequest) : Json :=
  .obj [("profile", .str request.profile), ("contract_sha256", .str request.contractSha256)]

def RecordingRequest.toJson (request : RecordingRequest) : Json :=
  .obj ([("frames", .nat request.frames)] ++
    (if request.warmupFrames = 0 then [] else [("warmup_frames", .nat request.warmupFrames)]) ++
    [("event_classes", .arr (request.eventClasses.map EventClassIdentity.toJson))] ++
    listField "event_filters" EventClassFilter.toJson request.eventFilters ++
    listField "event_arming" EventClassArming.toJson request.eventArming ++
    [("limits", request.limits.toJson)] ++
    optionalField "input_movie" InputMovieIdentity.toJson request.inputMovie ++
    optionalField "initial_state" StateSnapshotReceipt.toJson request.initialState ++
    optionalField "stop_on" EventStopCondition.toJson request.stopOn ++
    optionalField "start_on" EventStartCondition.toJson request.startOn ++
    listField "initial_snapshots" SnapshotRequest.toJson request.initialSnapshots ++
    listField "terminal_snapshots" SnapshotRequest.toJson request.terminalSnapshots ++
    optionalField "terminal_state" TerminalStateRequest.toJson request.terminalState)

def RecordingOrigin.text : RecordingOrigin → String
  | .nextFrameBoundary => "next_frame_boundary"
  | .resetRelease => "reset_release"
  | .stateLoad => "state_load"

def EventOrder.text : EventOrder → String
  | .guestEmission => "guest_emission"

def ObservationStartFacts.toJson (facts : ObservationStartFacts) : Json :=
  .obj [("sequence", .nat facts.sequence), ("event_class", .str facts.eventClass),
    ("contract_sha256", .str facts.contractSha256), ("frame", .nat facts.frame),
    ("clock_domain", .str facts.clockDomain), ("clock_tick", .nat facts.clockTick)]

def EffectiveScope.toJson (scope : EffectiveScope) : Json :=
  .obj ([("origin", .str scope.origin.text)] ++ optionalField "f_origin" .nat scope.fOrigin ++
    [("f_start", .nat scope.fStart), ("f_end", .nat scope.fEnd),
      ("clock_domains", .arr (scope.clockDomains.map .str))] ++
    optionalField "event_order" (fun order => .str (EventOrder.text order)) scope.eventOrder ++
    optionalField "observation_start" ObservationStartFacts.toJson scope.observationStart)

def OperationOutcome.text : OperationOutcome → String
  | .completed => "completed"
  | .interrupted => "interrupted"
  | .aborted => "aborted"
  | .failed => "failed"

def ExecutionOutcome.text : ExecutionOutcome → String
  | .targetReached => "target_reached"
  | .eventStop => "event_stop"
  | .emulatorExited => "emulator_exited"
  | .generationChanged => "generation_changed"
  | .adapterError => "adapter_error"
  | .lossDetected => "loss_detected"

def Integrity.text : Integrity → String
  | .complete => "complete"
  | .lossy => "lossy"
  | .unverifiable => "unverifiable"

def PublicationOutcome.text : PublicationOutcome → String
  | .published => "published"
  | .failed => "failed"

def EventStopFacts.toJson (facts : EventStopFacts) : Json :=
  .obj [("sequence", .nat facts.sequence), ("event_class", .str facts.eventClass),
    ("clock_domain", .str facts.clockDomain), ("clock_tick", .nat facts.clockTick), ("frame", .nat facts.frame),
    ("occurrence", .nat facts.occurrence)]

def FrameInterval.toJson (interval : FrameInterval) : Json :=
  .obj [("f_start", .nat interval.fStart), ("f_end", .nat interval.fEnd)]

def EventClassTerminalFacts.toJson (facts : EventClassTerminalFacts) : Json :=
  .obj ([("id", .str facts.id), ("armed", .bool facts.armed)] ++
    optionalField "armed_interval" FrameInterval.toJson facts.armedInterval ++
    [("observed", .nat facts.observed), ("dropped", .nat facts.dropped)])

def TerminalFacts.toJson (terminal : TerminalFacts) : Json :=
  .obj ([("operation_outcome", .str terminal.operationOutcome.text),
      ("execution_outcome", .str terminal.executionOutcome.text), ("integrity", .str terminal.integrity.text),
      ("publication", .str terminal.publication.text),
      ("final_execution_state", .str terminal.finalExecutionState.text),
      ("final_frame", .nat terminal.finalFrame)] ++
    optionalField "stop_event" EventStopFacts.toJson terminal.stopEvent ++
    [("reason", nullable .str terminal.reason)] ++
    listField "event_classes" EventClassTerminalFacts.toJson terminal.eventClasses)

def RecordingCounters.toJson (counters : RecordingCounters) : Json :=
  .obj [("frames", .nat counters.frames), ("events", .nat counters.events), ("bytes", .nat counters.bytes),
    ("dropped", .nat counters.dropped)]

def LossFacts.toJson (loss : LossFacts) : Json :=
  .obj [("dropped", .nat loss.dropped), ("truncated", .bool loss.truncated),
    ("first_sequence_gap", nullable .nat loss.firstSequenceGap)]

def CleanupState.text : CleanupState → String
  | .released => "released"
  | .notAcquired => "not_acquired"
  | .generationTerminated => "generation_terminated"
  | .unverifiable => "unverifiable"

def CleanupFacts.toJson (cleanup : CleanupFacts) : Json :=
  .obj [("hooks", .str cleanup.hooks.text), ("transient_input", .str cleanup.transientInput.text),
    ("sink", .str cleanup.sink.text)]

def CaptureKind.text : CaptureKind → String
  | .recordWindow => "record_window"

def MemberRole.text : MemberRole → String
  | .events => "events"
  | .inputMovie => "input_movie"
  | .initialState => "initial_state"
  | .initialSnapshot => "initial_snapshot"
  | .terminalSnapshot => "terminal_snapshot"
  | .terminalState => "terminal_state"

def MemberDescriptor.toJson (member : MemberDescriptor) : Json :=
  .obj [("role", .str member.role.text), ("path", .str member.path), ("sha256", .str member.sha256),
    ("bytes", .nat member.bytes), ("records", nullable .nat member.records)]

def Manifest.toJson (manifest : Manifest) : Json :=
  .obj [("format_version", .nat manifest.formatVersion), ("capture_id", .str manifest.captureId),
    ("capture_kind", .str manifest.captureKind.text), ("created_at_unix_ms", .nat manifest.createdAtUnixMs),
    ("request_digest_sha256", .str manifest.requestDigestSha256), ("runtime", manifest.runtime.toJson),
    ("request", manifest.request.toJson), ("scope", manifest.scope.toJson),
    ("terminal", manifest.terminal.toJson), ("counters", manifest.counters.toJson),
    ("loss", manifest.loss.toJson), ("cleanup", manifest.cleanup.toJson),
    ("members", .arr (manifest.members.map MemberDescriptor.toJson))]

end json

/-! ## The file -/

def Manifest.text (manifest : Manifest) : String :=
  String.ofList (manifest.toJson.pretty (fun _ => []) 0 ++ ['\n'])

/-- The readers that serde derives: of the version alone, and of the two formats. -/
structure ManifestCodec where
  version : String → Except String ℕ
  legacy : String → Except String Unit
  recording : String → Except String Manifest

inductive ManifestDecodeError where
  | json (reason : String)
  | unsupportedFormatVersion (version : ℕ)
  deriving DecidableEq

/-- A manifest of either format; nothing reads more of an old one. -/
inductive BundleManifest where
  | legacy
  | recording (manifest : Manifest)
  deriving DecidableEq

def parseManifest (codec : ManifestCodec) (json : String) : Except ManifestDecodeError BundleManifest := do
  let version ← (codec.version json).mapError .json
  if version = legacyFormatVersion then do
    (codec.legacy json).mapError .json
    return .legacy
  else if version = recordingFormatVersion then do
    let manifest ← (codec.recording json).mapError .json
    return .recording manifest
  else .error (.unsupportedFormatVersion version)

/-- The readers read back what was written of a manifest. -/
structure ManifestCodec.RoundTrips (codec : ManifestCodec) (manifest : Manifest) : Prop where
  version : codec.version manifest.text = .ok manifest.formatVersion
  recording : codec.recording manifest.text = .ok manifest

theorem ManifestCodec.RoundTrips.parseManifest {codec : ManifestCodec} {manifest : Manifest}
    (h : codec.RoundTrips manifest) (hversion : manifest.formatVersion = recordingFormatVersion) :
    parseManifest codec manifest.text = .ok (.recording manifest) := by
  rw [Bundle.parseManifest, h.version, h.recording, hversion]
  rfl

end Emucap.Bundle
