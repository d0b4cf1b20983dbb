import Emucap.Bundle.Manifest
import Emucap.InputMovie
import Emucap.Lib.FileTree
import Emucap.Live.RecordingTerminal

/-!
# Publication of a recording

`bundle/publish.rs` with its members: the checks on a staged recording, the manifest that is built from them, the steps
that turn the staging directory into the bundle, and the verification of a published bundle. The readers of JSON texts
and the digest are an `Env`, and an `Io` says which of the writing steps fail.
-/

namespace Emucap.Bundle

open Emucap.Lib Emucap.InputMovie Emucap.Live

/-! ## The world outside -/

structure Env where
  decodeEvent : List UInt8 → Except String EventEnvelope
  decodeRow : List Char → Except String ControllerRow
  parseJson : List UInt8 → Except String Json
  floatText : UInt64 → List Char
  sha256 : List UInt8 → String
  codec : ManifestCodec

/-- The reads of a buffered reader: 8 KiB each, less at the end. -/
def readChunks : ℕ → List UInt8 → List (List UInt8)
  | 0, _ => []
  | _ + 1, [] => []
  | n + 1, bytes => bytes.take 8192 :: readChunks n (bytes.drop 8192)

theorem nonempty_of_mem_readChunks {n : ℕ} {bytes chunk : List UInt8} (h : chunk ∈ readChunks n bytes) :
    chunk ≠ [] := by
  induction n generalizing bytes with
  | zero => cases h
  | succ n ih =>
    cases bytes with
    | nil => cases h
    | cons b bytes =>
      rcases List.mem_cons.mp h with rfl | hmem
      · simp
      · exact ih hmem

def EventFile.ofBytes (bytes : List UInt8) : EventFile where
  chunks := readChunks bytes.length bytes
  nonempty _ h := nonempty_of_mem_readChunks h
  fault := none

/-! ## Errors -/

inductive PublishError where
  | invalidCaptureId (captureId : String)
  | destinationExists (path : FsPath)
  | memberMissing (path : FsPath)
  | unsafeMember (path : FsPath)
  /-- recording identity is invalid: {reason} -/
  | invalidIdentity (reason : String)
  /-- `InvalidIdentity` with the text of another error -/
  | invalidLimits (error : RecordingCapabilityError)
  | invalidMovie (error : MovieError)
  | invalidContract (error : EventContractError)
  | validation (error : RecordingValidationError)
  | io (error : IoError)
  | injected (step : String)
  deriving DecidableEq

inductive PublishedBundleError where
  | unsafeManifest (path : FsPath)
  | manifestTooLarge
  | manifest (error : ManifestDecodeError)
  | legacyFormat
  /-- published recording layout or identity is invalid: {reason} -/
  | invalid (reason : String)
  /-- `Invalid` with the text of another error -/
  | invalidMember (error : PublishError)
  | validation (error : RecordingValidationError)
  | io (error : IoError)
  deriving DecidableEq

abbrev PublishCheck := Except PublishError

/-! ## Identities -/

def validHexDigest (value : String) (bytes : ℕ) : Bool :=
  value.utf8ByteSize == bytes * 2 &&
    value.toList.all fun c => c.isDigit || ('a' ≤ c && c ≤ 'f') || ('A' ≤ c && c ≤ 'F')

def validCaptureId (value : String) : Bool := isHyphenatedAsciiId value 96

def validSnapshotLabel (label : String) : Bool := isHyphenatedAsciiId label 64

def validProfileId (value : String) : Bool := isProfileToken 64 value

structure RecordingBundleInput where
  captureId : String
  createdAtUnixMs : ℕ
  requestDigestSha256 : String
  runtime : RuntimeIdentity
  eventOrder : Option EventOrder
  validation : RecordingValidationInput
  deriving DecidableEq

def requireNonempty : List (String × String) → PublishCheck Unit
  | [] => .ok ()
  | (name, value) :: rest => do
    require (value ≠ "") (.invalidIdentity (name ++ " must not be empty"))
    requireNonempty rest

def ensureIdentity (input : RecordingBundleInput) : PublishCheck Unit := do
  (validateRecordingLimits input.validation.request.limits).mapError .invalidLimits
  require (validCaptureId input.captureId) (.invalidCaptureId input.captureId)
  require (validHexDigest input.requestDigestSha256 32)
    (.invalidIdentity "request_digest_sha256 must be 64 hexadecimal characters")
  let runtime := input.runtime
  requireNonempty [("system", runtime.system), ("adapter_id", runtime.adapterId),
    ("server_build", runtime.serverBuild), ("adapter_build", runtime.adapterBuild),
    ("emulator_id", runtime.emulatorId), ("emulator_build", runtime.emulatorBuild),
    ("emulator_upstream_revision", runtime.emulatorUpstreamRevision), ("launch_id", runtime.launchId)]
  require (validHexDigest runtime.emulatorPatchsetSha256 32)
    (.invalidIdentity "emulator_patchset_sha256 must be a SHA-256")
  require (validHexDigest runtime.capabilityRevision 32)
    (.invalidIdentity "capability_revision must be a SHA-256")
  require (runtime.content.sha1.isSome ∨ runtime.content.sha256.isSome)
    (.invalidIdentity "content requires sha1 or sha256")
  require ((∀ value ∈ runtime.content.sha1, validHexDigest value 20) ∧
    ∀ value ∈ runtime.content.sha256, validHexDigest value 32)
    (.invalidIdentity "content digest has an invalid shape")

/-! ## Members -/

def eventsPath : List String := ["events", "segment-000.ndjson"]
def eventsMember : String := "events/segment-000.ndjson"
def inputMovieMember : String := "input.movie"
def initialStateMember : String := "initial.state"
def initialSnapshotsDir : String := "initial-snapshots"
def snapshotsDir : String := "snapshots"
def terminalStateMember : String := "terminal-state.json"
def manifestMember : String := "manifest.json"
def recoveryOwnerMember : String := ".emucap-capture-owner"

/-- What the system answers where a path leads to nothing. -/
def notFound : IoError := ⟨.notFound, "no such file or directory"⟩

def readBoundedRegularMember (root : FsNode) (relative : String) (maxBytes : ℕ) : Except IoError (List UInt8) := do
  require (isPortableRelativeMember relative)
    ⟨.invalidInput, "member path must remain relative to its managed root"⟩
  let bytes ← orError notFound (root.openMember (FsPath.new relative).components)
  require (bytes.length ≤ maxBytes)
    ⟨.invalidData, "managed member exceeds " ++ maxBytes.repr ++ " bytes"⟩
  return bytes

section members
-- the directory of the members and its path
variable (env : Env) (base : FsPath) (root : FsNode) (request : RecordingRequest)

def regularOwnedMember (path : List String) : PublishCheck Unit := do
  let full : FsPath := { base with components := base.components ++ path }
  let node ← orError (.memberMissing full) (root.stat? path)
  require (node.isFile ∧ node.isOwned) (.unsafeMember full)

def validateInputMovieMember : PublishCheck Unit :=
  match request.inputMovie with
  | none => require (root.stat? [inputMovieMember]).isNone (.invalidIdentity "unexpected input movie member")
  | some identity => do
    require (identity.format = InputMovie.inputMovieFormat ∧ identity.port = 0 ∧ identity.bytes ≤ coreMaxInputMovieBytes ∧
      identity.frames = saturatingAdd request.frames request.warmupFrames ∧ validHexDigest identity.sha256 32)
      (.invalidIdentity "input movie request identity is invalid")
    let bytes ← (readBoundedRegularMember root inputMovieMember identity.bytes).mapError .io
    require (bytes.length = identity.bytes) (.invalidIdentity "input movie member size mismatch")
    require (identity.sha256 = env.sha256 bytes) (.invalidIdentity "input movie member digest mismatch")
    let text ← orError (.invalidIdentity "input movie member is not UTF-8") (Lib.fromUtf8 bytes)
    let canonical ← (canonicalRecordingMovie env.decodeRow text.toList
      (UInt64.ofNat (saturatingAdd request.frames request.warmupFrames)) coreMaxInputButtonsPerFrame).mapError
        .invalidMovie
    require (utf8 (String.ofList canonical.bytes) = bytes)
      (.invalidIdentity "input movie member is not canonical")

/-- The state was taken from the runtime that records. -/
def sameRuntime (source runtime : RuntimeIdentity) : Prop :=
  source.system = runtime.system ∧ source.adapterId = runtime.adapterId ∧
    source.adapterBuild = runtime.adapterBuild ∧ source.emulatorId = runtime.emulatorId ∧
    source.emulatorBuild = runtime.emulatorBuild ∧
    source.emulatorUpstreamRevision = runtime.emulatorUpstreamRevision ∧
    source.emulatorPatchsetSha256 = runtime.emulatorPatchsetSha256 ∧ source.launchId = runtime.launchId ∧
    source.content = runtime.content

instance (source runtime : RuntimeIdentity) : Decidable (sameRuntime source runtime) :=
  inferInstanceAs (Decidable (_ ∧ _))

def validateInitialStateMember (runtime : RuntimeIdentity) : PublishCheck Unit :=
  match request.initialState with
  | none => require (root.stat? [initialStateMember]).isNone (.invalidIdentity "unexpected initial state member")
  | some receipt => do
    let identity := receipt.snapshot
    require (isHyphenatedAsciiId receipt.snapshotId 96 ∧ "snapshot-".toList.isPrefixOf receipt.snapshotId.toList ∧
      receipt.frozen.state = .frozen ∧ receipt.frozen.boundary = .frameBoundary ∧
      validProfileId identity.format ∧ identity.bytes ≠ 0 ∧ identity.bytes ≤ coreMaxRecordingStateBytes ∧
      validHexDigest identity.sha256 32) (.invalidIdentity "initial state request identity is invalid")
    require (sameRuntime receipt.source runtime)
      (.invalidIdentity "initial state receipt belongs to a different runtime generation")
    let bytes ← (readBoundedRegularMember root initialStateMember identity.bytes).mapError .io
    require (bytes.length = identity.bytes) (.invalidIdentity "initial state member size mismatch")
    require (identity.sha256 = env.sha256 bytes) (.invalidIdentity "initial state member digest mismatch")

def stateMemberDescriptor (receipt : StateSnapshotReceipt) : MemberDescriptor :=
  ⟨.initialState, initialStateMember, receipt.snapshot.sha256, receipt.snapshot.bytes, none⟩

def stateDescriptorMatches (members : List MemberDescriptor) (receipt : StateSnapshotReceipt) : Bool :=
  members.filter (fun member => member.role = .initialState) == [stateMemberDescriptor receipt]

/-- What initial and terminal snapshots differ in. -/
structure SnapshotFamily where
  role : MemberRole
  name : String
  directory : String
  maxMembers : ℕ
  maxMemberBytes : ℕ
  maxTotalBytes : ℕ

def snapshotMembers (family : SnapshotFamily) :
    List String → ℕ → List SnapshotRequest → PublishCheck (List MemberDescriptor)
  | _, _, [] => .ok []
  | labels, total, snapshot :: rest => do
    require (validSnapshotLabel snapshot.label ∧ snapshot.memoryType ≠ "" ∧
      snapshot.memoryType.utf8ByteSize ≤ 128 ∧ snapshot.length ≠ 0 ∧ snapshot.length ≤ family.maxMemberBytes ∧
      (checkedAdd snapshot.address snapshot.length).isSome ∧ snapshot.label ∉ labels)
      (.invalidIdentity (family.name ++ " request identity is invalid"))
    let total ← orError (.invalidIdentity (family.name ++ " byte total overflow"))
      (checkedAdd total snapshot.length)
    require (total ≤ family.maxTotalBytes)
      (.invalidIdentity (family.name ++ " byte total exceeds the Core bound"))
    let path := family.directory ++ "/" ++ snapshot.label ++ ".bin"
    let bytes ← (readBoundedRegularMember root path snapshot.length).mapError .io
    require (bytes.length = snapshot.length)
      (.invalidIdentity (family.name ++ " " ++ snapshot.label ++ " size mismatch"))
    let members ← snapshotMembers family (snapshot.label :: labels) total rest
    return ⟨family.role, path, env.sha256 bytes, snapshot.length, none⟩ :: members

def validateSnapshotMembers (family : SnapshotFamily) (snapshots : List SnapshotRequest) :
    PublishCheck (List MemberDescriptor) :=
  if snapshots = [] then do
    require (root.stat? [family.directory]).isNone
      (.invalidIdentity ("unexpected " ++ family.name ++ " directory"))
    return []
  else do
    require (snapshots.length ≤ family.maxMembers)
      (.invalidIdentity (family.name ++ " member count exceeds the Core bound"))
    let directory ← orError (.io notFound) (root.stat? [family.directory])
    require directory.isDir (.unsafeMember (base.join family.directory))
    let members ← snapshotMembers env root family [] 0 snapshots
    let actual := directory.entries.map Prod.fst
    let expected := snapshots.map fun snapshot => snapshot.label ++ ".bin"
    require ((∀ name ∈ actual, name ∈ expected) ∧ ∀ name ∈ expected, name ∈ actual)
      (.invalidIdentity (family.name ++ " directory contains missing or extra members"))
    return members

def initialSnapshots : SnapshotFamily where
  role := .initialSnapshot
  name := "initial snapshot"
  directory := initialSnapshotsDir
  maxMembers := coreMaxInitialSnapshotMembers
  maxMemberBytes := coreMaxInitialSnapshotMemberBytes
  maxTotalBytes := coreMaxInitialSnapshotTotalBytes

def terminalSnapshots : SnapshotFamily where
  role := .terminalSnapshot
  name := "terminal snapshot"
  directory := snapshotsDir
  maxMembers := coreMaxTerminalSnapshotMembers
  maxMemberBytes := coreMaxTerminalSnapshotMemberBytes
  maxTotalBytes := coreMaxTerminalSnapshotTotalBytes

def validateInitialSnapshotMembers : PublishCheck (List MemberDescriptor) :=
  validateSnapshotMembers env base root initialSnapshots request.initialSnapshots

def validateTerminalSnapshotMembers : PublishCheck (List MemberDescriptor) :=
  validateSnapshotMembers env base root terminalSnapshots request.terminalSnapshots

def validateTerminalStateMember : PublishCheck (Option MemberDescriptor) :=
  match request.terminalState with
  | none => do
    require (root.stat? [terminalStateMember]).isNone (.invalidIdentity "unexpected terminal state member")
    return none
  | some identity => do
    require (validProfileId identity.profile ∧ validHexDigest identity.contractSha256 32)
      (.invalidIdentity "terminal state request identity is invalid")
    let bytes ← (readBoundedRegularMember root terminalStateMember coreMaxTerminalStateBytes).mapError .io
    require (bytes ≠ [] ∧ bytes.length ≤ coreMaxTerminalStateBytes)
      (.invalidIdentity "terminal state member exceeds the Core bound")
    let value ← (env.parseJson bytes).mapError .invalidIdentity
    require (value.isObject ∧ utf8 (String.ofList (value.canonical env.floatText)) = bytes)
      (.invalidIdentity "terminal state member is not canonical object JSON")
    return some ⟨.terminalState, terminalStateMember, env.sha256 bytes, bytes.length, none⟩

end members

/-! ## The layout of a bundle -/

inductive MemberType where
  | file
  | directory
  deriving DecidableEq

def MemberType.admits : MemberType → FsNode → Bool
  | .file, node => node.isFile
  | .directory, node => node.isDir

/-- The loop over the entries of a directory; the names seen. -/
def exactEntries (base : FsPath) (expected : List (String × MemberType)) :
    List String → List (String × FsNode) → PublishCheck (List String)
  | seen, [] => .ok seen
  | seen, (name, node) :: rest => do
    let kind ← orError (.unsafeMember (base.join name)) (OrdMap.find? name expected)
    require (name ∉ seen ∧ kind.admits node ∧ node.isOwned) (.unsafeMember (base.join name))
    exactEntries base expected (name :: seen) rest

def exactDirectory (base : FsPath) (node : Option FsNode) (expected : List (String × MemberType)) :
    PublishCheck Unit := do
  let node ← orError (.io notFound) node
  require (node.isDir ∧ node.isOwned) (.unsafeMember base)
  let seen ← exactEntries base expected [] node.entries
  match expected.find? fun member => member.1 ∉ seen with
  | some (name, _) => .error (.memberMissing (base.join name))
  | none => .ok ()

def rootMembers (request : RecordingRequest) : List (String × MemberType) :=
  [(manifestMember, .file), ("events", .directory)] ++
    (if request.inputMovie.isSome then [(inputMovieMember, .file)] else []) ++
    (if request.initialState.isSome then [(initialStateMember, .file)] else []) ++
    (if request.initialSnapshots = [] then [] else [(initialSnapshotsDir, .directory)]) ++
    (if request.terminalSnapshots = [] then [] else [(snapshotsDir, .directory)]) ++
    (if request.terminalState.isSome then [(terminalStateMember, .file)] else [])

def validateFinalLayout (base : FsPath) (root : FsNode) (request : RecordingRequest) : PublishCheck Unit := do
  exactDirectory base (some root) (rootMembers request)
  exactDirectory (base.join "events") (root.stat? ["events"]) [("segment-000.ndjson", .file)]

/-! ## The manifest of a publication -/

def clockDomains (registry : EventContractRegistry) :
    List (String × Unit) → List EventClassIdentity → PublishCheck (List (String × Unit))
  | domains, [] => .ok domains
  | domains, identity :: rest => do
    let contract ← (registry.validateIdentity identity).mapError .invalidContract
    clockDomains registry (OrdMap.insert contract.clockDomain () domains) rest

def memberDescriptors (request : RecordingRequest) (stream : EventStreamReport)
    (snapshots : List MemberDescriptor) : List MemberDescriptor :=
  [⟨.events, eventsMember, stream.sha256, stream.physicalBytes, some stream.records⟩] ++
    (request.inputMovie.toList.map fun identity =>
      ⟨.inputMovie, inputMovieMember, identity.sha256, identity.bytes, some identity.frames⟩) ++
    request.initialState.toList.map stateMemberDescriptor ++ snapshots

def buildManifest (input : RecordingBundleInput) (registry : EventContractRegistry)
    (validated : ValidatedRecording) (snapshots : List MemberDescriptor) : PublishCheck Manifest := do
  let domains ← clockDomains registry [] input.validation.request.eventClasses
  let producer := validated.terminal
  let stream := validated.stream
  return {
    formatVersion := recordingFormatVersion
    captureId := input.captureId
    captureKind := .recordWindow
    createdAtUnixMs := input.createdAtUnixMs
    requestDigestSha256 := input.requestDigestSha256
    runtime := input.runtime
    request := input.validation.request
    scope := {
      origin := input.validation.origin
      fOrigin := producer.fOrigin
      fStart := input.validation.fStart
      fEnd := input.validation.fEnd
      clockDomains := domains.map Prod.fst
      eventOrder := input.eventOrder
      observationStart := input.validation.observationStart }
    terminal := {
      operationOutcome := producer.operationOutcome
      executionOutcome := producer.executionOutcome
      integrity := validated.integrity
      publication := .published
      finalExecutionState := producer.finalExecutionState
      finalFrame := producer.finalFrame
      stopEvent := producer.stopEvent
      reason := producer.reason
      eventClasses := producer.eventClasses }
    counters := {
      frames := producer.counters.frames
      events := stream.records
      bytes := stream.physicalBytes
      dropped := producer.counters.dropped }
    loss := producer.loss
    cleanup := producer.cleanup
    members := memberDescriptors input.validation.request stream snapshots }

/-! ## Publishing -/

abbrev OutputRoot := List (String × FsNode)

/-- A staging directory of the output directory; `ulid` is what its name was made from. -/
structure RecordingStaging where
  outputRoot : FsPath
  captureId : String
  ulid : String
  validId : validCaptureId captureId = true

namespace RecordingStaging

variable (staging : RecordingStaging)

def stagingName : String := "." ++ staging.captureId ++ ".staging-" ++ staging.ulid

def destinationName : String := staging.captureId

def quarantineName (ulid : String) : String := "." ++ staging.captureId ++ ".invalid-" ++ ulid

end RecordingStaging

inductive PublishFault where
  | none
  | manifestWrite
  | manifestShortWrite
  | manifestSync
  | rename
  deriving DecidableEq

/-- The faults of the writing steps. A write that fails leaves the first bytes behind. -/
structure Io where
  createManifest : Option IoError
  writeManifest : Option (IoError × ℕ)
  syncManifest : Option IoError
  removeOwner : Option IoError
  syncStaging : Option IoError
  rename : Option IoError
  syncRoot : Option IoError
  quarantineRename : Option IoError
  quarantineSync : Option IoError

structure PublishedRecording where
  bundlePath : FsPath
  manifestSha256 : String
  manifest : Manifest
  deriving DecidableEq

/-- What a publication works on: the output directory, and the name `staging_path` has in it. -/
structure PublishState where
  root : OutputRoot
  stagingName : String

abbrev PublishM := EStateM PublishError PublishState

def liftCheck {α : Type} : PublishCheck α → PublishM α
  | .ok a => pure a
  | .error e => throw e

def step (fault : Option IoError) : PublishM Unit :=
  match fault with
  | .none => pure ()
  | some e => throw (.io e)

def injectIf (c : Bool) (name : String) : PublishM Unit := if c then throw (.injected name) else pure ()

/-- `symlink_metadata(destination).is_ok()` refuses the publication. -/
def refuseDestination (staging : RecordingStaging) : PublishM Unit := do
  let state ← get
  liftCheck (require (OrdMap.find? staging.destinationName state.root).isNone
    (.destinationExists (staging.outputRoot.join staging.destinationName)))

def modifyStaging (f : List (String × FsNode) → List (String × FsNode)) : PublishM Unit :=
  modify fun state =>
    match OrdMap.find? state.stagingName state.root with
    | some (.dir entries isPrivate) =>
      { state with root := OrdMap.insert state.stagingName (.dir (f entries) isPrivate) state.root }
    | _ => state

def stagingNode : PublishM FsNode := do
  let state ← get
  liftCheck (orError (.io notFound) (OrdMap.find? state.stagingName state.root))

def putManifest (bytes : List UInt8) : PublishM Unit :=
  modifyStaging (OrdMap.insert manifestMember (.file bytes true))

section publish
variable (env : Env) (registry : EventContractRegistry) (staging : RecordingStaging) (io : Io)

/-- The checks on the staged members, and the descriptors of the snapshots. -/
def checkMembers (base : FsPath) (root : FsNode) (input : RecordingBundleInput) :
    PublishCheck (List MemberDescriptor) := do
  require (input.captureId = staging.captureId) (.invalidIdentity "capture_id does not match staging")
  ensureIdentity input
  regularOwnedMember base root eventsPath
  validateInputMovieMember env root input.validation.request
  validateInitialStateMember env root input.validation.request input.runtime
  let initial ← validateInitialSnapshotMembers env base root input.validation.request
  let terminal ← validateTerminalSnapshotMembers env base root input.validation.request
  let state ← validateTerminalStateMember env root input.validation.request
  return initial ++ terminal ++ state.toList

/-- `validate_recording`: the file at the path, through links on the way. -/
def validateRecording (root : FsNode) (input : RecordingValidationInput) : PublishCheck ValidatedRecording :=
  match root.stat? eventsPath with
  | some (.file bytes _) =>
    (validateRecordingFile env.decodeEvent env.sha256 (.ofBytes bytes) registry input).mapError .validation
  | _ => .error (.io notFound)

def writeManifest (fault : PublishFault) (bytes : List UInt8) : PublishM Unit := do
  let node ← stagingNode
  step io.createManifest
  liftCheck (require (node.child manifestMember).isNone (.io ⟨.other, "file exists"⟩))
  putManifest []
  injectIf (fault == .manifestWrite) "manifest_write"
  if fault = .manifestShortWrite then
    putManifest (bytes.take (bytes.length / 2))
  injectIf (fault == .manifestShortWrite) "manifest_short_write"
  match io.writeManifest with
  | some (e, written) => do
    putManifest (bytes.take written)
    throw (.io e)
  | none => putManifest bytes
  injectIf (fault == .manifestSync) "manifest_sync"
  step io.syncManifest

def removeOwner : PublishM Unit := do
  let node ← stagingNode
  match node.child recoveryOwnerMember with
  | none => pure ()
  | some (.dir _ _) => throw (.io ⟨.other, "is a directory"⟩)
  | some _ => do
    step io.removeOwner
    modifyStaging (OrdMap.erase recoveryOwnerMember)

/-- Rename the staging directory; it is `staging_path` under its new name. -/
def renameStaging (name : String) : PublishM Unit :=
  modify fun state =>
    match OrdMap.find? state.stagingName state.root with
    | some node => ⟨OrdMap.insert name node (OrdMap.erase state.stagingName state.root), name⟩
    | none => state

def tryPublish (fault : PublishFault) (input : RecordingBundleInput) : PublishM PublishedRecording := do
  let base := staging.outputRoot.join staging.stagingName
  let node ← stagingNode
  let snapshots ← liftCheck (checkMembers env staging base node input)
  refuseDestination staging
  let validated ← liftCheck (validateRecording env registry node input.validation)
  let manifest ← liftCheck (buildManifest input registry validated snapshots)
  let bytes := utf8 manifest.text
  writeManifest io fault bytes
  removeOwner io
  let final ← stagingNode
  liftCheck (validateFinalLayout base final input.validation.request)
  step io.syncStaging
  refuseDestination staging
  injectIf (fault == .rename) "rename"
  step io.rename
  renameStaging staging.destinationName
  step io.syncRoot
  return ⟨staging.outputRoot.join staging.destinationName, env.sha256 bytes, manifest⟩

def quarantine (ulid : String) : PublishM FsPath := do
  step io.quarantineRename
  renameStaging (staging.quarantineName ulid)
  step io.quarantineSync
  return staging.outputRoot.join (staging.quarantineName ulid)

def publishWithFault (ulid : String) (fault : PublishFault) (input : RecordingBundleInput) (root : OutputRoot) :
    Except PublishError PublishedRecording × OutputRoot :=
  match tryPublish env registry staging io fault input ⟨root, staging.stagingName⟩ with
  | .ok published state => (.ok published, state.root)
  | .error e state =>
    -- how the quarantine ends is not looked at
    match quarantine staging io ulid state with
    | .ok _ state | .error _ state => (.error e, state.root)

def publish (ulid : String) (input : RecordingBundleInput) (root : OutputRoot) :
    Except PublishError PublishedRecording × OutputRoot :=
  publishWithFault env registry staging io ulid .none input root

end publish

/-! ## Verification -/

structure VerifiedPublishedRecording where
  bundlePath : FsPath
  manifestSha256 : String
  manifest : Manifest
  deriving DecidableEq

def maxManifestBytes : ℕ := 128 * 1024

/-- The validation input that a manifest stands for. -/
def Manifest.validation (manifest : Manifest) : RecordingValidationInput where
  request := manifest.request
  origin := manifest.scope.origin
  fStart := manifest.scope.fStart
  fEnd := manifest.scope.fEnd
  observationStart := manifest.scope.observationStart
  terminal := {
    operationOutcome := manifest.terminal.operationOutcome
    executionOutcome := manifest.terminal.executionOutcome
    claimedIntegrity := manifest.terminal.integrity
    finalExecutionState := manifest.terminal.finalExecutionState
    finalFrame := manifest.terminal.finalFrame
    fOrigin := manifest.scope.fOrigin
    counters := manifest.counters
    loss := manifest.loss
    cleanup := manifest.cleanup
    stopEvent := manifest.terminal.stopEvent
    reason := manifest.terminal.reason
    eventClasses := manifest.terminal.eventClasses }

def Manifest.bundleInput (manifest : Manifest) : RecordingBundleInput where
  captureId := manifest.captureId
  createdAtUnixMs := manifest.createdAtUnixMs
  requestDigestSha256 := manifest.requestDigestSha256
  runtime := manifest.runtime
  eventOrder := manifest.scope.eventOrder
  validation := manifest.validation

def Manifest.described (manifest : Manifest) (role : MemberRole) : List MemberDescriptor :=
  manifest.members.filter fun member => member.role = role

def Manifest.eventMember (manifest : Manifest) : Option MemberDescriptor :=
  match manifest.described .events with
  | [member] => if member.path = eventsMember then some member else none
  | _ => none

def expectedMembers (request : RecordingRequest) : ℕ :=
  1 + request.inputMovie.isSome.toNat + request.initialState.isSome.toNat + request.terminalSnapshots.length +
    request.initialSnapshots.length + request.terminalState.isSome.toNat

abbrev BundleCheck := Except PublishedBundleError

section verify
variable (env : Env) (registry : EventContractRegistry)

def readManifest (base : FsPath) (root : FsNode) : BundleCheck (Manifest × List UInt8) := do
  let manifestPath := base.join manifestMember
  let node ← orError (.unsafeManifest manifestPath) (root.stat? [manifestMember])
  require node.isFile (.unsafeManifest manifestPath)
  require (node.size ≤ maxManifestBytes) .manifestTooLarge
  let bytes ← (readBoundedRegularMember root manifestMember maxManifestBytes).mapError .io
  let text ← orError (.invalid "manifest is not UTF-8") (Lib.fromUtf8 bytes)
  match ← (parseManifest env.codec text).mapError .manifest with
  | .legacy => .error .legacyFormat
  | .recording manifest => .ok (manifest, bytes)

/-- The members that the manifest describes are those of the directory. -/
def checkDescribed (base : FsPath) (root : FsNode) (manifest : Manifest) : BundleCheck MemberDescriptor := do
  let request := manifest.request
  let member ← orError (.invalid "unexpected recording member layout") manifest.eventMember
  (validateInputMovieMember env root request).mapError .invalidMember
  (validateInitialStateMember env root request manifest.runtime).mapError .invalidMember
  let initial ← (validateInitialSnapshotMembers env base root request).mapError .invalidMember
  let terminal ← (validateTerminalSnapshotMembers env base root request).mapError .invalidMember
  let state ← (validateTerminalStateMember env root request).mapError .invalidMember
  require (∀ identity ∈ request.inputMovie, manifest.described .inputMovie =
      [⟨.inputMovie, inputMovieMember, identity.sha256, identity.bytes, some identity.frames⟩])
    (.invalid "input movie member descriptor mismatch")
  require (∀ receipt ∈ request.initialState, stateDescriptorMatches manifest.members receipt)
    (.invalid "initial state member descriptor mismatch")
  require (manifest.described .terminalSnapshot = terminal)
    (.invalid "terminal snapshot member descriptor mismatch")
  require (manifest.described .initialSnapshot = initial)
    (.invalid "initial snapshot member descriptor mismatch")
  require (manifest.described .terminalState = state.toList)
    (.invalid "terminal state member descriptor mismatch")
  return member

def validateMember (root : FsNode) (manifest : Manifest) : BundleCheck ValidatedRecording := do
  let bytes ← orError (.io notFound) (root.openMember eventsPath)
  (validateRecordingFile env.decodeEvent env.sha256 (.ofBytes bytes) registry manifest.validation).mapError
    .validation

def verifyPublishedRecordingChecked (check : FsPath → Manifest → BundleCheck Unit) (base : FsPath)
    (node : Option FsNode) : BundleCheck VerifiedPublishedRecording := do
  let root ← orError (.io notFound) node
  require root.isDir (.invalid "bundle path must be a real directory")
  let (manifest, bytes) ← readManifest env base root
  check base manifest
  require (manifest.formatVersion = recordingFormatVersion ∧ manifest.captureKind = .recordWindow ∧
    manifest.terminal.publication = .published ∧ manifest.members.length = expectedMembers manifest.request)
    (.invalid "recording manifest shape or publication state mismatch")
  (ensureIdentity manifest.bundleInput).mapError .invalidMember
  (validateFinalLayout base root manifest.request).mapError .invalidMember
  let member ← checkDescribed env base root manifest
  (regularOwnedMember base root eventsPath).mapError .invalidMember
  let validated ← validateMember env registry root manifest
  let stream := validated.stream
  require (validated.integrity = manifest.terminal.integrity ∧ stream.sha256 = member.sha256 ∧
    stream.physicalBytes = member.bytes ∧ member.records = some stream.records ∧
    manifest.counters.events = stream.records ∧ manifest.counters.bytes = stream.physicalBytes)
    (.invalid "recording member hash, counters, or integrity mismatch")
  return ⟨base, env.sha256 bytes, manifest⟩

def verifyPublishedRecording (base : FsPath) (node : Option FsNode) : BundleCheck VerifiedPublishedRecording :=
  verifyPublishedRecordingChecked env registry (fun _ _ => .ok ()) base node

end verify

end Emucap.Bundle
