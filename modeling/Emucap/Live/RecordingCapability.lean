import Emucap.EventContracts

/-!
# Recording capabilities

What an adapter advertises about recording, and its validation against the registry of event contracts
(`live/recording_capability.rs`). The two digests, of the capability without its revision and of the groups of a
terminal state profile, are parameters (`CapabilityDigests`).
-/

namespace Emucap.Live

open Emucap.Lib Emucap.Bundle

/-! ## Limits -/

def coreMaxRecordingFrames : ℕ := 5000
def coreMaxRecordingEvents : ℕ := 100000
def coreMaxRecordingBytes : ℕ := 64 * 1024 * 1024
def coreMaxRecordingLineBytes : ℕ := 64 * 1024
def coreMaxRecordingHostMs : ℕ := 250000
def coreMaxInputMovieBytes : ℕ := 1024 * 1024
def coreMaxInputButtonsPerFrame : ℕ := 64
def coreMaxRecordingStateBytes : ℕ := 64 * 1024 * 1024
def coreMaxTerminalSnapshotMembers : ℕ := 8
def coreMaxTerminalSnapshotMemberBytes : ℕ := 128 * 1024
def coreMaxTerminalSnapshotTotalBytes : ℕ := 1024 * 1024
def coreMaxInitialSnapshotMembers : ℕ := 8
def coreMaxInitialSnapshotMemberBytes : ℕ := 128 * 1024
def coreMaxInitialSnapshotTotalBytes : ℕ := 1024 * 1024
def coreMaxInitialSnapshotCallbackMs : ℕ := 500
def coreMaxTerminalStateBytes : ℕ := 128 * 1024

inductive RecordingCapabilityError where
  | contract (error : EventContractError)
  | invalid (reason : String)
  deriving DecidableEq

abbrev CapabilityCheck := Except RecordingCapabilityError

def validateRecordingLimits (limits : RecordingLimits) : CapabilityCheck Unit := do
  require (limits.maxFrames ≠ 0 ∧ limits.maxFrames ≤ coreMaxRecordingFrames)
    (.invalid "max_frames is outside the Core bound")
  require (limits.maxFrames ≤ limits.maxEvents ∧ limits.maxEvents ≤ coreMaxRecordingEvents)
    (.invalid "max_events is outside the Core bound")
  require (limits.maxBytes ≠ 0 ∧ limits.maxBytes ≤ coreMaxRecordingBytes)
    (.invalid "max_bytes is outside the Core bound")
  require (limits.maxLineBytes ≠ 0 ∧ limits.maxLineBytes ≤ coreMaxRecordingLineBytes ∧
    limits.maxLineBytes ≤ limits.maxBytes) (.invalid "max_line_bytes is outside the Core bound")
  require (limits.maxHostMs ≠ 0 ∧ limits.maxHostMs ≤ coreMaxRecordingHostMs)
    (.invalid "max_host_ms is outside the Core bound")
  require (10 ≤ limits.progressIntervalMs ∧ limits.progressIntervalMs < limits.maxHostMs)
    (.invalid "progress_interval_ms must be in 10..max_host_ms")

/-- Limits within the bounds of the core. -/
structure LimitsValid (limits : RecordingLimits) : Prop where
  framesPos : limits.maxFrames ≠ 0
  frames : limits.maxFrames ≤ coreMaxRecordingFrames
  eventsFrames : limits.maxFrames ≤ limits.maxEvents
  events : limits.maxEvents ≤ coreMaxRecordingEvents
  bytesPos : limits.maxBytes ≠ 0
  bytes : limits.maxBytes ≤ coreMaxRecordingBytes
  linePos : limits.maxLineBytes ≠ 0
  line : limits.maxLineBytes ≤ coreMaxRecordingLineBytes
  lineBytes : limits.maxLineBytes ≤ limits.maxBytes
  hostPos : limits.maxHostMs ≠ 0
  host : limits.maxHostMs ≤ coreMaxRecordingHostMs
  intervalPos : 10 ≤ limits.progressIntervalMs
  interval : limits.progressIntervalMs < limits.maxHostMs

theorem validateRecordingLimits_eq_ok {limits : RecordingLimits} :
    validateRecordingLimits limits = .ok () ↔ LimitsValid limits := by
  unfold validateRecordingLimits
  simp only [require_bind_eq_ok, require_eq_ok]
  constructor
  · rintro ⟨⟨h₁, h₂⟩, ⟨h₃, h₄⟩, ⟨h₅, h₆⟩, ⟨h₇, h₈, h₉⟩, ⟨h₁₀, h₁₁⟩, h₁₂, h₁₃⟩
    exact ⟨h₁, h₂, h₃, h₄, h₅, h₆, h₇, h₈, h₉, h₁₀, h₁₁, h₁₂, h₁₃⟩
  · rintro ⟨h₁, h₂, h₃, h₄, h₅, h₆, h₇, h₈, h₉, h₁₀, h₁₁, h₁₂, h₁₃⟩
    exact ⟨⟨h₁, h₂⟩, ⟨h₃, h₄⟩, ⟨h₅, h₆⟩, ⟨h₇, h₈, h₉⟩, ⟨h₁₀, h₁₁⟩, h₁₂, h₁₃⟩

/-! ## Capabilities -/

inductive RecordingCapabilityOrigin where
  | nextFrameBoundary
  | resetRelease
  | stateLoad
  deriving DecidableEq

inductive RecordingCapabilityUnit where
  | frames
  deriving DecidableEq

inductive RecordingEventFilterKind where
  | u64Range
  deriving DecidableEq

structure RecordingEventFilterField where
  path : String
  kind : RecordingEventFilterKind
  min : ℕ
  max : ℕ
  deriving DecidableEq

structure RecordingEventCapability where
  id : String
  contractSha256 : String
  clockDomains : List String
  exact : Bool
  stoppable : Bool
  startable : Bool
  filterableFields : List RecordingEventFilterField
  deriving DecidableEq

structure RecordingInputMovieCapability where
  format : String
  port : ℕ
  maxFrames : ℕ
  maxBytes : ℕ
  maxButtonsPerFrame : ℕ
  deriving DecidableEq

inductive RecordingStateLoadAlignment where
  | restoredFrameBoundary
  deriving DecidableEq

structure RecordingStateLoadCapability where
  format : String
  maxBytes : ℕ
  alignment : RecordingStateLoadAlignment
  requiresInputMovie : Bool
  deriving DecidableEq

structure RecordingTerminalSnapshotCapability where
  maxMembers : ℕ
  maxMemberBytes : ℕ
  maxTotalBytes : ℕ
  deriving DecidableEq

inductive RecordingInitialSnapshotPosition where
  | eventAnchor
  deriving DecidableEq

structure RecordingInitialSnapshotCapability where
  memoryTypes : List String
  startPositions : List RecordingInitialSnapshotPosition
  maxMembers : ℕ
  maxMemberBytes : ℕ
  maxTotalBytes : ℕ
  maxCallbackMs : ℕ
  deriving DecidableEq

structure RecordingTerminalStateProfile where
  id : String
  contractSha256 : String
  groups : List String
  deriving DecidableEq

structure RecordingTerminalStateCapability where
  maxBytes : ℕ
  profiles : List RecordingTerminalStateProfile
  deriving DecidableEq

structure RecordingEventScopeCapability where
  id : String
  scopes : List EventArmingScope
  deriving DecidableEq

structure RecordingWarmupCapability where
  maxFrames : ℕ
  transactionEventClasses : List String
  selectableEventScopes : List RecordingEventScopeCapability
  deriving DecidableEq

structure RecordingRepeatabilityCapability where
  profile : String
  conditionsSha256 : String
  origins : List RecordingCapabilityOrigin
  requiresInputMovie : Bool
  deriving DecidableEq

structure RecordingCapability where
  revision : String
  origins : List RecordingCapabilityOrigin
  units : List RecordingCapabilityUnit
  defaultEventClasses : List String
  eventClasses : List RecordingEventCapability
  eventOrder : Option EventOrder
  classAccounting : Bool
  inputMovie : Option RecordingInputMovieCapability
  stateLoad : Option RecordingStateLoadCapability
  initialSnapshots : Option RecordingInitialSnapshotCapability
  terminalSnapshots : Option RecordingTerminalSnapshotCapability
  terminalState : Option RecordingTerminalStateCapability
  warmup : Option RecordingWarmupCapability
  repeatability : Option RecordingRepeatabilityCapability
  limits : RecordingLimits
  deriving DecidableEq

/-- The digests of `computed_revision` and `terminal_state_contract_sha256`. -/
structure CapabilityDigests where
  computedRevision : RecordingCapability → String
  terminalStateContract : List String → String

/-! ## Validation -/

def isHexDigest (value : String) : Bool :=
  value.utf8ByteSize == 64 &&
    value.toList.all fun c => c.isDigit || ('a' ≤ c && c ≤ 'f') || ('A' ≤ c && c ≤ 'F')

/-- Letters, digits, `-` and `_`, at least one and at most `maxBytes`. -/
def isProfileToken (maxBytes : ℕ) (value : String) : Bool :=
  value ≠ "" && value.utf8ByteSize ≤ maxBytes &&
    value.toList.all fun c => c.isAlphanum || c == '-' || c == '_'

def safeProfileToken : String → Bool := isProfileToken 64

def inputMovieFormat : String := "frame-full-state-1"

/-- A check of an advertised part, where there is one. -/
def whenAdvertised {α : Type} (part : Option α) (check : α → CapabilityCheck Unit) : CapabilityCheck Unit :=
  match part with
  | none => .ok ()
  | some a => check a

namespace RecordingCapability

variable (cap : RecordingCapability) (digests : CapabilityDigests) (registry : EventContractRegistry)

def ids : List String := cap.eventClasses.map RecordingEventCapability.id

def validateRevision : CapabilityCheck Unit := do
  require (isHexDigest cap.revision) (.invalid "revision must be a SHA-256")
  require (cap.revision.toLower = (digests.computedRevision cap).toLower)
    (.invalid "revision does not cover the advertised recording capability")

def validateRepeatability (repeatability : RecordingRepeatabilityCapability) : CapabilityCheck Unit := do
  require (isProfileToken 96 repeatability.profile)
    (.invalid "repeatability profile must be a safe non-empty identifier")
  require (isHexDigest repeatability.conditionsSha256)
    (.invalid "repeatability conditions_sha256 must be a SHA-256")
  require (repeatability.origins ≠ [] ∧ repeatability.origins.Nodup ∧ repeatability.origins ⊆ cap.origins)
    (.invalid "repeatability origins must be a non-empty subset of recording origins")
  require (¬ (repeatability.requiresInputMovie ∧ cap.inputMovie.isNone))
    (.invalid "repeatability requires an advertised input movie capability")

/-- The filterable field is the registered one, with its bounds. -/
def fieldRegistered (contract : EventContract) (field : RecordingEventFilterField) : Bool :=
  (contract.payloadFields.find? fun registered => registered.path == field.path).any fun registered =>
    registered.valueType == .u64 && field.kind == .u64Range && field.min == registered.lower &&
      field.max == registered.upper

def validateFilterFields (event : RecordingEventCapability) (contract : EventContract) :
    List RecordingEventFilterField → List String → CapabilityCheck Unit
  | [], _ => .ok ()
  | field :: rest, seen => do
    require (field.path ∉ seen ∧ fieldRegistered contract field)
      (.invalid ("event class " ++ event.id ++ " advertises an invalid filterable field " ++ field.path))
    validateFilterFields event contract rest (field.path :: seen)

def validateEventClasses : List RecordingEventCapability → List String → CapabilityCheck Unit
  | [], _ => .ok ()
  | event :: rest, seen => do
    require (event.id ∉ seen) (.invalid ("duplicate event class " ++ event.id))
    let contract ← (registry.validateIdentity ⟨event.id, event.contractSha256⟩).mapError .contract
    require (event.exact ∧ event.clockDomains = [contract.clockDomain])
      (.invalid ("event class " ++ event.id ++ " does not exactly match its registered clock"))
    validateFilterFields event contract event.filterableFields []
    validateEventClasses rest (event.id :: seen)

def validateDefaults (ids : List String) : List String → List String → CapabilityCheck Unit
  | [], _ => .ok ()
  | id :: rest, seen => do
    require (id ∈ ids ∧ id ∉ seen) (.invalid ("invalid default event class " ++ id))
    validateDefaults ids rest (id :: seen)

def validateInputMovie (movie : RecordingInputMovieCapability) : CapabilityCheck Unit :=
  require (movie.format = inputMovieFormat ∧ movie.port = 0 ∧ movie.maxFrames ≠ 0 ∧
      movie.maxFrames ≤ cap.limits.maxFrames ∧ movie.maxBytes ≠ 0 ∧ movie.maxBytes ≤ coreMaxInputMovieBytes ∧
      movie.maxButtonsPerFrame ≠ 0 ∧ movie.maxButtonsPerFrame ≤ coreMaxInputButtonsPerFrame)
    (.invalid "input movie format, port, or bounds are invalid")

def validateStateLoad (stateLoad : RecordingStateLoadCapability) : CapabilityCheck Unit :=
  require (safeProfileToken stateLoad.format ∧ stateLoad.maxBytes ≠ 0 ∧
      stateLoad.maxBytes ≤ coreMaxRecordingStateBytes ∧ stateLoad.alignment = .restoredFrameBoundary ∧
      ¬ (stateLoad.requiresInputMovie ∧ cap.inputMovie.isNone))
    (.invalid "state-load format, alignment, or bounds are invalid")

/-- The bounds that initial and terminal snapshots share. -/
def snapshotBoundsValid (maxMembers maxMemberBytes maxTotalBytes coreMembers coreMemberBytes coreTotalBytes : ℕ) :
    Prop :=
  maxMembers ≠ 0 ∧ maxMembers ≤ coreMembers ∧ maxMemberBytes ≠ 0 ∧ maxMemberBytes ≤ coreMemberBytes ∧
    maxTotalBytes ≠ 0 ∧ maxTotalBytes ≤ coreTotalBytes ∧ maxMemberBytes ≤ maxTotalBytes

instance (a b c d e f : ℕ) : Decidable (snapshotBoundsValid a b c d e f) :=
  inferInstanceAs (Decidable (_ ∧ _ ∧ _ ∧ _ ∧ _ ∧ _ ∧ _))

def validateTerminalSnapshots (snapshots : RecordingTerminalSnapshotCapability) : CapabilityCheck Unit :=
  require (snapshotBoundsValid snapshots.maxMembers snapshots.maxMemberBytes snapshots.maxTotalBytes
      coreMaxTerminalSnapshotMembers coreMaxTerminalSnapshotMemberBytes coreMaxTerminalSnapshotTotalBytes)
    (.invalid "terminal snapshot bounds are outside the Core limits")

def validateInitialSnapshots (snapshots : RecordingInitialSnapshotCapability) : CapabilityCheck Unit :=
  require (cap.eventClasses.any RecordingEventCapability.startable ∧ snapshots.startPositions = [.eventAnchor] ∧
      snapshots.memoryTypes ≠ [] ∧ (∀ memoryType ∈ snapshots.memoryTypes, memoryType ≠ "" ∧
        memoryType.utf8ByteSize ≤ 128) ∧ snapshots.memoryTypes.Nodup ∧
      snapshotBoundsValid snapshots.maxMembers snapshots.maxMemberBytes snapshots.maxTotalBytes
        coreMaxInitialSnapshotMembers coreMaxInitialSnapshotMemberBytes coreMaxInitialSnapshotTotalBytes ∧
      snapshots.maxCallbackMs ≠ 0 ∧ snapshots.maxCallbackMs ≤ coreMaxInitialSnapshotCallbackMs)
    (.invalid "initial snapshot positions, memory types, or bounds are invalid")

def validateProfiles : List RecordingTerminalStateProfile → List String → CapabilityCheck Unit
  | [], _ => .ok ()
  | profile :: rest, seen => do
    require (safeProfileToken profile.id ∧ profile.id ∉ seen ∧ profile.groups ≠ [] ∧ profile.groups.Nodup ∧
        profile.groups.all safeProfileToken ∧
        profile.contractSha256 = digests.terminalStateContract profile.groups)
      (.invalid "terminal state profile identity, groups, or contract is invalid")
    validateProfiles rest (profile.id :: seen)

def validateTerminalState (state : RecordingTerminalStateCapability) : CapabilityCheck Unit := do
  require (state.maxBytes ≠ 0 ∧ state.maxBytes ≤ coreMaxTerminalStateBytes ∧ state.profiles ≠ [])
    (.invalid "terminal state bounds or profiles are invalid")
  validateProfiles digests state.profiles []

end RecordingCapability

namespace RecordingWarmupCapability

def defaultScope (warmup : RecordingWarmupCapability) (id : String) : EventArmingScope :=
  if id ∈ warmup.transactionEventClasses then .transaction else .observation

end RecordingWarmupCapability

namespace RecordingCapability

variable (cap : RecordingCapability) (digests : CapabilityDigests) (registry : EventContractRegistry)

def validateWarmup (warmup : RecordingWarmupCapability) : CapabilityCheck Unit :=
  require (warmup.maxFrames ≠ 0 ∧ warmup.maxFrames ≤ cap.limits.maxFrames ∧
      warmup.transactionEventClasses.Nodup ∧ "frame_boundary" ∈ warmup.transactionEventClasses ∧
      warmup.transactionEventClasses ⊆ cap.ids ∧
      (∀ entry ∈ warmup.selectableEventScopes, entry.id ∈ cap.ids ∧ entry.scopes.Nodup ∧
        1 < entry.scopes.length ∧ warmup.defaultScope entry.id ∈ entry.scopes) ∧
      (warmup.selectableEventScopes.map RecordingEventScopeCapability.id).Nodup ∧ cap.classAccounting)
    (.invalid "warmup bounds, event scopes, or class accounting are invalid")

def validate : CapabilityCheck Unit := do
  cap.validateRevision digests
  whenAdvertised cap.repeatability cap.validateRepeatability
  require (cap.origins.head? = some .nextFrameBoundary ∧ cap.origins.length ≤ 3 ∧ cap.origins.Nodup)
    (.invalid "origins must start with one next_frame_boundary and contain no duplicates")
  require (cap.units = [.frames]) (.invalid "the initial profile requires only frame units")
  require (cap.eventClasses ≠ [] ∧ cap.defaultEventClasses ≠ [])
    (.invalid "event classes and defaults must not be empty")
  validateEventClasses registry cap.eventClasses []
  require (¬ (cap.eventClasses.any RecordingEventCapability.startable ∧
      (cap.eventOrder ≠ some .guestEmission ∨
        ¬ cap.warmup.any (fun warmup => warmup.transactionEventClasses.contains "frame_boundary"))))
    (.invalid "startable event classes require guest_emission order and a transaction frame boundary")
  validateDefaults cap.ids cap.defaultEventClasses []
  require ("frame_boundary" ∈ cap.ids ∧ "frame_boundary" ∈ cap.defaultEventClasses)
    (.invalid "the initial profile requires frame_boundary")
  whenAdvertised cap.inputMovie cap.validateInputMovie
  require ((.stateLoad ∈ cap.origins) ↔ cap.stateLoad.isSome)
    (.invalid "state_load origin and capability must be advertised together")
  whenAdvertised cap.stateLoad cap.validateStateLoad
  whenAdvertised cap.terminalSnapshots validateTerminalSnapshots
  whenAdvertised cap.initialSnapshots cap.validateInitialSnapshots
  whenAdvertised cap.terminalState (validateTerminalState digests)
  whenAdvertised cap.warmup cap.validateWarmup
  validateRecordingLimits cap.limits

/-- The loop of `identities`. -/
def resolveIdentities : List String → List String → CapabilityCheck (List EventClassIdentity)
  | [], _ => .ok []
  | id :: rest, seen => do
    require (id ∉ seen) (.invalid ("duplicate requested event class " ++ id))
    let event ← orError (.invalid ("event class " ++ id ++ " is not advertised"))
      (cap.eventClasses.find? fun event => event.id == id)
    return ⟨event.id, event.contractSha256⟩ :: (← resolveIdentities rest (id :: seen))

def identities (requested : List String) : CapabilityCheck (List EventClassIdentity) :=
  cap.resolveIdentities (if requested = [] then cap.defaultEventClasses else requested) []

end RecordingCapability

end Emucap.Live
