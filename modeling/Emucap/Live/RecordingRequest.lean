import Emucap.Bundle.Event
import Emucap.Live.RecordingCapability
import Emucap.PathSafety

/-!
# Admission of a recording request

`effective_request` (`live/recording_request.rs`), its steps in the order of the source. Reading the input movie from
its file is the parameter `acquireMovie`; a failed `expect` is `RecordingError.panicked`.
-/

namespace Emucap.Live

open Emucap.Lib Emucap.Bundle

/-! ## Data -/

structure RequestedRecordingLimits where
  maxEvents : Option ℕ
  maxBytes : Option ℕ
  maxHostMs : Option ℕ
  deriving DecidableEq

/-- A requested window; the output root is not used by the admission. -/
structure RecordWindowRequest where
  frames : ℕ
  warmupFrames : ℕ
  eventClasses : List String
  eventFilters : List EventClassFilter
  eventArmingOverrides : List EventClassArming
  origin : Option RecordingOrigin
  inputPath : Option FsPath
  initialState : Option String
  stopOn : Option EventStopCondition
  startOn : Option EventStartCondition
  initialSnapshots : List SnapshotRequest
  terminalSnapshots : List SnapshotRequest
  terminalStateProfile : Option String
  requireRepeatable : Bool
  limits : Option RequestedRecordingLimits
  deriving DecidableEq

structure MemoryRegion where
  memoryType : String
  size : ℕ
  deriving DecidableEq

structure AcquiredRecordingMovie where
  canonicalBytes : List UInt8
  identity : InputMovieIdentity
  deriving DecidableEq

structure AcquiredRecordingState where
  bytes : List UInt8
  receipt : StateSnapshotReceipt
  deriving DecidableEq

inductive RecordingInputError where
  | relativePath
  | unsafeFile
  | byteLimit (limit : ℕ)
  | utf8
  | invalid (reason : String)
  | changed
  | io (error : String)
  deriving DecidableEq

inductive RecordingError where
  | unavailable (reason : String)
  | invalid (reason : String)
  | capability (error : RecordingCapabilityError)
  | input (error : RecordingInputError)
  | panicked (reason : String)
  deriving DecidableEq

abbrev AdmissionCheck := Except RecordingError

structure EffectiveRequest where
  request : RecordingRequest
  origin : RecordingOrigin
  movie : Option AcquiredRecordingMovie
  state : Option AcquiredRecordingState
  deriving DecidableEq

def RecordingOrigin.capabilityOrigin : RecordingOrigin → RecordingCapabilityOrigin
  | .nextFrameBoundary => .nextFrameBoundary
  | .resetRelease => .resetRelease
  | .stateLoad => .stateLoad

def RecordingOrigin.debug : RecordingOrigin → String
  | .nextFrameBoundary => "NextFrameBoundary"
  | .resetRelease => "ResetRelease"
  | .stateLoad => "StateLoad"

def scopeDebug : EventArmingScope → String
  | .transaction => "Transaction"
  | .observation => "Observation"

/-! ## Origin and state -/

section admission

variable (cap : RecordingCapability) (request : RecordWindowRequest)

def checkWarmup : AdmissionCheck Unit :=
  if request.warmupFrames = 0 then .ok ()
  else do
    let warmup ← orError (.unavailable "the current runtime does not advertise recording warmup") cap.warmup
    require (request.warmupFrames ≤ warmup.maxFrames)
      (.invalid ("warmup_frames exceeds " ++ toString warmup.maxFrames))

def checkOrigin (origin : RecordingOrigin) : AdmissionCheck Unit := do
  require (¬ (request.requireRepeatable ∧ ¬ cap.repeatability.any
      (fun repeatability => repeatability.origins.contains (RecordingOrigin.capabilityOrigin origin))))
    (.unavailable ("the current runtime does not advertise repeatable recording for origin " ++
      RecordingOrigin.debug origin))
  require (¬ (request.requireRepeatable ∧ cap.repeatability.any RecordingRepeatabilityCapability.requiresInputMovie ∧
      request.inputPath.isNone))
    (.invalid ("the selected repeatable profile requires an explicit input movie; " ++
      "use an all-empty movie when no buttons should be pressed"))
  require (RecordingOrigin.capabilityOrigin origin ∈ cap.origins)
    (.unavailable ("the current runtime does not advertise origin " ++ RecordingOrigin.debug origin))

def resolveState (origin : RecordingOrigin) (acquired : Option AcquiredRecordingState) :
    AdmissionCheck (Option AcquiredRecordingState) :=
  match origin, request.initialState, acquired with
  | .stateLoad, some snapshotId, some state => do
    let stateLoad ← orError (.unavailable "the current runtime does not advertise state-backed recording")
      cap.stateLoad
    require (¬ (stateLoad.requiresInputMovie ∧ request.inputPath.isNone))
      (.invalid ("state-backed recording requires an explicit input movie; " ++
        "use an all-empty movie when no buttons should be pressed"))
    require (snapshotId = state.receipt.snapshotId)
      (.invalid "resolved snapshot does not match initial_state.snapshot_id")
    return some state
  | .stateLoad, none, _ => .error (.invalid "state_load origin requires initial_state")
  | .stateLoad, some _, none => .error (.unavailable "producer-managed initial state was not resolved")
  | _, some _, _ => .error (.invalid "initial_state requires the state_load origin")
  | _, none, some _ => .error (.invalid "unexpected resolved state without initial_state")
  | _, none, none => .ok none

/-! ## Events -/

/-- The terms of one filter, checked against the fields the class advertises. -/
def checkRequestedTerms (eventClass : String) (event : RecordingEventCapability) :
    List EventFilterTerm → List String → AdmissionCheck Unit
  | [], _ => .ok ()
  | .u64Range path start length :: rest, seen => do
    require (path ∉ seen) (.invalid ("duplicate event filter path " ++ path ++ " for " ++ eventClass))
    let field ← orError
      (.unavailable ("event class " ++ eventClass ++ " does not advertise u64_range filtering for " ++ path))
      (event.filterableFields.find? fun field => field.path == path && field.kind == .u64Range)
    let last ← orError (.invalid ("event filter range for " ++ eventClass ++ "." ++ path ++ " overflows"))
      (checkedAdd start length)
    require (length ≠ 0 ∧ field.min ≤ start ∧ last - 1 ≤ field.max)
      (.invalid ("event filter range for " ++ eventClass ++ "." ++ path ++ " is outside " ++
        toString field.min ++ "..=" ++ toString field.max))
    checkRequestedTerms eventClass event rest (path :: seen)

/-- The filters in the order of the request, each with its terms in the order of their paths. -/
def checkRequestedFilters (selected : List EventClassIdentity) :
    List EventClassFilter → List String → AdmissionCheck (List EventClassFilter)
  | [], _ => .ok []
  | filter :: rest, seen => do
    require (filter.eventClass ∉ seen) (.invalid ("duplicate event filter for " ++ filter.eventClass))
    require (filter.eventClass ∈ selected.map EventClassIdentity.id)
      (.invalid ("filtered event class " ++ filter.eventClass ++ " must be selected"))
    require (filter.terms ≠ [] ∧ filter.terms.length ≤ maxEventFilterTerms)
      (.invalid ("event filter for " ++ filter.eventClass ++ " must contain 1..=8 terms"))
    let event ← orError (.panicked "selected event class was resolved from this capability")
      (cap.eventClasses.find? fun event => event.id == filter.eventClass)
    checkRequestedTerms filter.eventClass event filter.terms []
    let checked : EventClassFilter := ⟨filter.eventClass, filter.terms.mergeSort (fun a b => a.path ≤ b.path)⟩
    return checked :: (← checkRequestedFilters selected rest (filter.eventClass :: seen))

def validateEventFilters (selected : List EventClassIdentity) (requested : List EventClassFilter) :
    AdmissionCheck (List EventClassFilter) := do
  let filters ← checkRequestedFilters cap selected requested []
  return filters.mergeSort (fun a b => a.eventClass ≤ b.eventClass)

def validateStartRequest (eventClasses : List EventClassIdentity) : AdmissionCheck Unit :=
  match request.startOn with
  | none => require (request.initialSnapshots = [])
      (.invalid "initial snapshots require an event-aligned start_on condition")
  | some start => do
    require (cap.eventOrder = some .guestEmission)
      (.unavailable "event-aligned start requires guest_emission order")
    let event ← orError (.unavailable ("start event class " ++ start.eventClass ++ " is not advertised"))
      (cap.eventClasses.find? fun event => event.id == start.eventClass)
    require (event.exact ∧ event.startable ∧ start.eventClass ∈ eventClasses.map EventClassIdentity.id)
      (.invalid "start event class must be selected, exact, and startable")

/-- The overrides, each of a recorded class, once, and to an advertised scope. -/
def checkOverrides (warmup : RecordingWarmupCapability) (selectedIds : List String) :
    List EventClassArming → List String → AdmissionCheck Unit
  | [], _ => .ok ()
  | requested :: rest, seen => do
    require (requested.id ∈ selectedIds)
      (.invalid ("event arming override " ++ requested.id ++ " must select a recorded class"))
    require (requested.id ∉ seen) (.invalid ("duplicate event arming override " ++ requested.id))
    let advertised ← orError
      (.unavailable ("event class " ++ requested.id ++ " does not advertise selectable warmup scopes"))
      (warmup.selectableEventScopes.find? fun entry => entry.id == requested.id)
    require (requested.scope ∈ advertised.scopes)
      (.unavailable ("event class " ++ requested.id ++ " does not advertise scope " ++ scopeDebug requested.scope))
    checkOverrides warmup selectedIds rest (requested.id :: seen)

def resolvedScope (warmup : RecordingWarmupCapability) (id : String) : EventArmingScope :=
  match request.eventArmingOverrides.find? fun requested => requested.id == id with
  | some requested => requested.scope
  | none => warmup.defaultScope id

def resolveEventArming (selected : List EventClassIdentity) : AdmissionCheck (List EventClassArming) :=
  if request.warmupFrames = 0 ∧ request.startOn = none then do
    require (request.eventArmingOverrides = []) (.invalid "event_arming_overrides require warmup_frames")
    return []
  else do
    require (¬ (request.startOn.isSome ∧ request.eventArmingOverrides ≠ []))
      (.invalid "event_arming_overrides cannot be combined with start_on")
    let warmup ← orError (.unavailable "the current runtime does not advertise recording warmup") cap.warmup
    checkOverrides warmup (selected.map EventClassIdentity.id) request.eventArmingOverrides []
    return selected.map fun identity => ⟨identity.id, resolvedScope request warmup identity.id⟩

def validateStopRequest (eventClasses : List EventClassIdentity) : AdmissionCheck Unit :=
  match request.stopOn with
  | none => .ok ()
  | some stop => do
    require (stop.occurrence ≠ 0) (.invalid "stop_on.occurrence must be positive")
    let event ← orError (.unavailable ("stop event class " ++ stop.eventClass ++ " is not advertised"))
      (cap.eventClasses.find? fun event => event.id == stop.eventClass)
    require (event.stoppable ∧ stop.eventClass ∈ eventClasses.map EventClassIdentity.id)
      (.invalid "stop event class must be selected, exact, and stoppable")
    require (¬ (stop.eventClass = "frame_completed" ∧ request.frames < stop.occurrence))
      (.invalid "frame_completed occurrence cannot exceed the frame bound")

/-! ## Snapshots -/

/-- The ranges of the snapshots, one after the other; their total length. -/
def checkSnapshotRanges (kind : String) (regions : List MemoryRegion) (allowed : List String)
    (maxMemberBytes : ℕ) : List SnapshotRequest → List String → ℕ → AdmissionCheck ℕ
  | [], _, total => .ok total
  | snapshot :: rest, labels, total => do
    require (isHyphenatedAsciiId snapshot.label 64 ∧ snapshot.label ∉ labels)
      (.invalid (kind ++ " labels must be unique safe identifiers of at most 64 bytes"))
    require (snapshot.length ≠ 0 ∧ snapshot.length ≤ maxMemberBytes)
      (.invalid (kind ++ " " ++ snapshot.label ++ " length must be in 1..=" ++ toString maxMemberBytes))
    require (allowed = [] ∨ snapshot.memoryType ∈ allowed)
      (.unavailable (kind ++ " " ++ snapshot.label ++ " memory_type is not callback-safe"))
    let region ← orError
      (.invalid (kind ++ " " ++ snapshot.label ++ " memory_type is absent from status.memory_regions"))
      (regions.find? fun region => region.memoryType == snapshot.memoryType)
    require (snapshot.address ≤ region.size ∧ snapshot.length ≤ region.size - snapshot.address)
      (.invalid (kind ++ " " ++ snapshot.label ++ " exceeds the exact live region size"))
    let total ← orError (.invalid (kind ++ " total length overflow")) (checkedAdd total snapshot.length)
    checkSnapshotRanges kind regions allowed maxMemberBytes rest (snapshot.label :: labels) total

def validateSnapshotRanges (kind : String) (snapshots : List SnapshotRequest) (regions : List MemoryRegion)
    (allowed : List String) (maxMembers maxMemberBytes maxTotalBytes : ℕ) : AdmissionCheck Unit := do
  require (snapshots.length ≤ maxMembers) (.invalid (kind ++ " count exceeds " ++ toString maxMembers))
  let total ← checkSnapshotRanges kind regions allowed maxMemberBytes snapshots [] 0
  require (total ≤ maxTotalBytes) (.invalid (kind ++ " bytes exceed " ++ toString maxTotalBytes))

def validateInitialSnapshotRequest (regions : List MemoryRegion) : AdmissionCheck Unit :=
  if request.initialSnapshots = [] then .ok ()
  else do
    let bounds ← orError
      (.unavailable "the current runtime does not advertise event-aligned initial snapshots")
      cap.initialSnapshots
    validateSnapshotRanges "initial snapshot" request.initialSnapshots regions bounds.memoryTypes
      bounds.maxMembers bounds.maxMemberBytes bounds.maxTotalBytes

def validateTerminalSnapshotRequest (methods : List String) (regions : List MemoryRegion) :
    AdmissionCheck Unit :=
  if request.terminalSnapshots = [] then .ok ()
  else do
    let bounds ← orError (.unavailable "the current runtime does not advertise terminal snapshots")
      cap.terminalSnapshots
    require ("read_memory" ∈ methods) (.unavailable "terminal snapshots require live read_memory")
    validateSnapshotRanges "terminal snapshot" request.terminalSnapshots regions [] bounds.maxMembers
      bounds.maxMemberBytes bounds.maxTotalBytes

def validateTerminalStateRequest (methods : List String) : AdmissionCheck (Option TerminalStateRequest) :=
  match request.terminalStateProfile with
  | none => .ok none
  | some requested => do
    require ("get_state" ∈ methods) (.unavailable "terminal state capture requires live get_state")
    let state ← orError (.unavailable "the current runtime does not advertise terminal state profiles")
      cap.terminalState
    let profile ← orError (.unavailable ("terminal state profile " ++ requested ++ " is not advertised"))
      (state.profiles.find? fun profile => profile.id == requested)
    return some ⟨profile.id, profile.contractSha256⟩

/-! ## Limits -/

def defaultRecordingHostMsMin : ℕ := 30000
def defaultRecordingHostMsPerFrame : ℕ := 50

def defaultRecordingHostMs (advertisedMax frames : ℕ) : ℕ :=
  min (max (min (frames * defaultRecordingHostMsPerFrame) u64Max) defaultRecordingHostMsMin) advertisedMax

def narrowLimit (name : String) (effective : ℕ) : Option ℕ → AdmissionCheck ℕ
  | none => .ok effective
  | some requested => do
    require (requested ≠ 0 ∧ requested ≤ effective)
      (.invalid (name ++ " may narrow but not expand the advertised limit"))
    return requested

def RecordWindowRequest.requested (request : RecordWindowRequest) : RequestedRecordingLimits :=
  request.limits.getD ⟨none, none, none⟩

/-- The advertised limits, narrowed by the request. -/
def narrowLimits (totalFrames : ℕ) : AdmissionCheck RecordingLimits := do
  let hostMs := if request.requested.maxHostMs = none then
      defaultRecordingHostMs cap.limits.maxHostMs totalFrames
    else cap.limits.maxHostMs
  let maxEvents ← narrowLimit "max_events" cap.limits.maxEvents request.requested.maxEvents
  let maxBytes ← narrowLimit "max_bytes" cap.limits.maxBytes request.requested.maxBytes
  let maxHostMs ← narrowLimit "max_host_ms" hostMs request.requested.maxHostMs
  return { cap.limits with maxEvents, maxBytes, maxHostMs }

def armedFrames (arming : List EventClassArming) (totalFrames : ℕ) (id : String) : ℕ :=
  match arming.find? fun entry => entry.id == id with
  | some ⟨_, .transaction⟩ => totalFrames
  | _ => request.frames

def requiredEvents (eventClasses : List EventClassIdentity) (arming : List EventClassArming)
    (totalFrames : ℕ) : Option ℕ :=
  (eventClasses.filter fun identity => identity.id == "frame_boundary" || identity.id == "frame_completed").foldlM
    (fun total identity => checkedAdd total (armedFrames request arming totalFrames identity.id)) 0

def effectiveLimits (eventClasses : List EventClassIdentity) (arming : List EventClassArming)
    (totalFrames : ℕ) : AdmissionCheck RecordingLimits := do
  let limits ← narrowLimits cap request totalFrames
  let required ← orError (.invalid "required event count overflow")
    (requiredEvents request eventClasses arming totalFrames)
  require (required ≤ limits.maxEvents ∧ limits.maxLineBytes ≤ limits.maxBytes)
    (.invalid "requested limits cannot contain the required frame stream")
  require (limits.progressIntervalMs < limits.maxHostMs)
    (.invalid ("max_host_ms must exceed the adapter progress interval of " ++
      toString limits.progressIntervalMs ++ " ms"))
  return { limits with maxFrames := totalFrames }

/-! ## The effective request -/

variable (acquireMovie : FsPath → ℕ → RecordingInputMovieCapability →
  Except RecordingInputError AcquiredRecordingMovie)

def resolveMovie (totalFrames : ℕ) : AdmissionCheck (Option AcquiredRecordingMovie) :=
  match request.inputPath with
  | none => .ok none
  | some path => do
    let movie ← orError (.unavailable "the current runtime does not advertise input movies") cap.inputMovie
    require (totalFrames ≤ movie.maxFrames)
      (.invalid ("input movie frame count exceeds " ++ toString movie.maxFrames))
    let acquired ← (acquireMovie path totalFrames movie).mapError .input
    return some acquired

def effectiveRequest (methods : List String) (regions : List MemoryRegion)
    (acquiredState : Option AcquiredRecordingState) : AdmissionCheck EffectiveRequest := do
  let totalFrames ← orError (.invalid "recording frame count overflow")
    (checkedAdd request.warmupFrames request.frames)
  require (request.frames ≠ 0 ∧ totalFrames ≤ cap.limits.maxFrames)
    (.invalid ("warmup_frames + frames must be in 1..=" ++ toString cap.limits.maxFrames))
  let origin := request.origin.getD .nextFrameBoundary
  require (¬ (origin = .stateLoad ∧
      (0 < request.warmupFrames ∨ request.startOn.isSome ∨ request.initialSnapshots ≠ [])))
    (.invalid ("state_load currently starts at its advertised frame alignment and cannot be combined with " ++
      "warmup_frames, start_on, or initial_snapshots"))
  checkWarmup cap request
  checkOrigin cap request origin
  let state ← resolveState cap request origin acquiredState
  let eventClasses ← (cap.identities request.eventClasses).mapError .capability
  let eventFilters ← validateEventFilters cap eventClasses request.eventFilters
  validateStartRequest cap request eventClasses
  validateInitialSnapshotRequest cap request regions
  let eventArming ← resolveEventArming cap request eventClasses
  validateTerminalSnapshotRequest cap request methods regions
  let terminalState ← validateTerminalStateRequest cap request methods
  require ("frame_boundary" ∈ eventClasses.map EventClassIdentity.id)
    (.invalid "frame_boundary must be selected for a recording window")
  validateStopRequest cap request eventClasses
  let limits ← effectiveLimits cap request eventClasses eventArming totalFrames
  let movie ← resolveMovie cap request acquireMovie totalFrames
  return {
    request := {
      frames := request.frames
      warmupFrames := request.warmupFrames
      eventClasses
      eventFilters
      eventArming
      limits
      inputMovie := movie.map AcquiredRecordingMovie.identity
      initialState := state.map AcquiredRecordingState.receipt
      stopOn := request.stopOn
      startOn := request.startOn
      initialSnapshots := request.initialSnapshots
      terminalSnapshots := request.terminalSnapshots
      terminalState }
    origin
    movie
    state }

end admission

end Emucap.Live
