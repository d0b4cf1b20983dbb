import Emucap.Live.CaptureCapsule

/-!
# Continuity observation

`ObservedLink` (`live/continuity.rs`) guards a controller's calls with the durable link record of the launch. Every
method is a program over `LinkOp`. The adapter failure, the termination record and the public snapshot are left out.
-/

namespace Emucap.Live

open Emucap.Lib

/-! ## Operations -/

/-- What the closure of an update reads besides the record. -/
structure LinkEnv where
  now : ℕ
  processState : ProcessIdentity → ProcessState
  writeToken : Except IoError Unit

/-- The closure of a link update; `none` is a panic. -/
abbrev LinkUpdate := LinkEnv → Option LinkRecord → Option (Except IoError LinkRecord)

structure SessionEntry where
  port : ℕ
  isDir : Bool
  deriving DecidableEq

/-- What an `ObservedLink` sees of the link it wraps. -/
structure InnerLink where
  endpointPort : Option ℕ
  exclusiveControl : Bool
  identity : EmulatorIdentity
  methods : List String
  deriving DecidableEq

/-- A generation that waits to become current (`PreparedGeneration`). -/
structure PreparedGeneration where
  port : ℕ
  launchId : String
  expectedCurrentLaunchId : Option String
  deriving DecidableEq

inductive LinkOp where
  | readCurrent (port : ℕ)
  | sessions
  | generationExists (port : ℕ) (launchId : String)
  | readLink (port : ℕ) (launchId : String)
  | readCapture (port : ℕ) (launchId : String)
  | sameContentPath (expected observed : String)
  | processState (p : ProcessIdentity)
  | now
  | innerCall (method : String) (params : Json)
  | updateLink (port : ℕ) (launchId : String) (f : LinkUpdate)
  | updateCurrentLink (port : ℕ) (launchId : String) (f : LinkUpdate)
  | commit (prepared : PreparedGeneration) (manifest : CurrentManifest)
  | exit (p : ProcessIdentity)

abbrev LinkOp.Reply : LinkOp → Type
  | .readCurrent _ => Except IoError (Option CurrentManifest)
  | .sessions => Except IoError (List SessionEntry)
  | .generationExists _ _ => Except IoError Bool
  | .readLink _ _ => Except IoError (Option LinkRecord)
  | .readCapture _ _ => Except IoError (Option CaptureCapsule)
  | .sameContentPath _ _ => Bool
  | .processState _ => ProcessState
  | .now => ℕ
  | .innerCall _ _ => Except LinkError Json × InnerLink
  | .updateLink _ _ _ => Except IoError LinkRecord
  | .updateCurrentLink _ _ _ => Except IoError LinkRecord
  | .commit _ _ => Except IoError Unit
  | .exit _ => Unit

abbrev LinkProg := Prog LinkOp LinkOp.Reply

namespace LinkProg

def readCurrent (port : ℕ) : LinkProg (Except IoError (Option CurrentManifest)) :=
  Prog.issue (LinkOp.readCurrent port)

def readLink (port : ℕ) (launchId : String) : LinkProg (Except IoError (Option LinkRecord)) :=
  Prog.issue (LinkOp.readLink port launchId)

def readCapture (port : ℕ) (launchId : String) : LinkProg (Except IoError (Option CaptureCapsule)) :=
  Prog.issue (LinkOp.readCapture port launchId)

def sameContentPath (expected observed : String) : LinkProg Bool :=
  Prog.issue (LinkOp.sameContentPath expected observed)

def processState (p : ProcessIdentity) : LinkProg ProcessState := Prog.issue (LinkOp.processState p)

def now : LinkProg ℕ := Prog.issue LinkOp.now

def innerCall (method : String) (params : Json) : LinkProg (Except LinkError Json × InnerLink) :=
  Prog.issue (LinkOp.innerCall method params)

def updateLink (port : ℕ) (launchId : String) (f : LinkUpdate) : LinkProg (Except IoError LinkRecord) :=
  Prog.issue (LinkOp.updateLink port launchId f)

def updateCurrentLink (port : ℕ) (launchId : String) (f : LinkUpdate) :
    LinkProg (Except IoError LinkRecord) :=
  Prog.issue (LinkOp.updateCurrentLink port launchId f)

end LinkProg

open LinkProg

/-! ## Looking up a launch -/

/-- The scan of `current_for_launch` over the port directories. -/
def scanSessions (launchId : String) : List SessionEntry → Option CurrentManifest → Bool →
    ExceptT IoError LinkProg (Option CurrentManifest)
  | [], matched, historical => do
    Prog.failIf historical ⟨.invalidData, "local launch generation has no matching current capsule"⟩
    return matched
  | entry :: rest, matched, historical => do
    Prog.failIf (!entry.isDir) ⟨.invalidData, "runtime port entry is not a directory"⟩
    let current ← Prog.attempt (LinkOp.readCurrent entry.port) id
    match current.filter (fun c => c.launchId == launchId) with
    | some current =>
      Prog.failIf matched.isSome
        ⟨.invalidData, "multiple current runtime capsules claim this launch identity"⟩
      scanSessions launchId rest (some current) historical
    | none =>
      let there ← Prog.attempt (LinkOp.generationExists entry.port launchId) id
      scanSessions launchId rest matched (historical || there)

def currentForLaunch (launchId : String) : ExceptT IoError LinkProg (Option CurrentManifest) :=
  match validateLaunchId launchId with
  -- Outside the managed identity namespace.
  | .error _ => pure none
  | .ok () => do
    let entries ← Prog.attempt LinkOp.sessions id
    scanSessions launchId entries none false

/-! ## The lease of a generation -/

def leaseAfterClaim (holder : ProcessIdentity) (controlKey : Option String) (env : LinkEnv) :
    Option LeaseRecord → Except IoError LeaseRecord
  | some lease =>
    if lease.holder = holder then .ok { lease with refreshedAtUnixMs := env.now }
    else match env.processState lease.holder with
      | .alive => .error ⟨.permissionDenied, "runtime lease is held by a live controller"⟩
      | .exited => .ok ⟨controlKey, holder, env.now, env.now⟩
      | .unknown => .error ⟨.permissionDenied, "runtime lease cannot be reclaimed safely"⟩
  | none => .ok ⟨controlKey, holder, env.now, env.now⟩

def writeCompatibilityToken (env : LinkEnv) : Option String → Except IoError Unit
  | none => .ok ()
  | some token =>
    if token.toList.all Line.isWhiteSpace then
      .error ⟨.invalidInput, "refusing to write an empty runtime token"⟩
    else env.writeToken

def launchRecord (launchId : String) (now : ℕ) (record : Option LinkRecord) : LinkRecord :=
  (record.filter fun r => r.launchId == launchId).getD (LinkRecord.new launchId now)

def claimUpdate (bytes : LinkRecord → Option ℕ) (launchId : String) (holder : ProcessIdentity)
    (controlKey : Option String) (token : Option String) : LinkUpdate := fun env record =>
  if record.any (fun r => r.temporalOperation.isSome && r.launchId != launchId) then
    some (.error ⟨.invalidData, "temporal marker belongs to a mismatched runtime record"⟩)
  else
    let record := launchRecord launchId env.now record
    match leaseAfterClaim holder controlKey env record.lease with
    | .error e => some (.error e)
    | .ok lease =>
      match writeCompatibilityToken env token with
      | .error e => some (.error e)
      | .ok () =>
        (LinkRecord.bounded bytes { record with lease := some lease, updatedAtUnixMs := env.now }).map .ok

def claimGenerationLease (bytes : LinkRecord → Option ℕ) (port : ℕ) (launchId : String)
    (holder : ProcessIdentity) (controlKey : Option String) (token : Option String) :
    LinkProg (Except IoError LinkRecord) :=
  updateCurrentLink port launchId (claimUpdate bytes launchId holder controlKey token)

def leaseView (lease : LeaseRecord) (holder : ProcessIdentity) : LinkProg LeaseView := do
  if lease.holder = holder then
    return ⟨.held, some lease.holder.pid⟩
  match ← processState lease.holder with
  | .alive => return ⟨.occupied, some lease.holder.pid⟩
  | .exited => return ⟨.available, some lease.holder.pid⟩
  | .unknown => return ⟨.unknown, some lease.holder.pid⟩

def recordLeaseView (record : Option LinkRecord) (holder : ProcessIdentity) : LinkProg LeaseView :=
  match record.bind LinkRecord.lease with
  | none => pure LeaseView.unknown
  | some lease => leaseView lease holder

/-! ## Binding -/

def contentAgrees (current : CurrentManifest) (identity : EmulatorIdentity) : LinkProg Bool :=
  match identity.content with
  | none => pure true
  | some content => if current.content = content then pure true else sameContentPath current.content content

def runtimeBinding (current : Option CurrentManifest) (identity : EmulatorIdentity)
    (liveIdentityObserved : Bool) : LinkProg RuntimeBinding := do
  let currentLaunchId := current.map CurrentManifest.launchId
  if !liveIdentityObserved then
    return ⟨.unobserved, currentLaunchId, identity.launchId, "no live adapter identity has been observed"⟩
  match current with
  | none => return ⟨.unmanaged, none, identity.launchId, "the live adapter has no current runtime capsule"⟩
  | some current =>
    match identity.launchId with
    | some live =>
      if live = current.launchId then
        return ⟨.bound, currentLaunchId, some live,
          "live adapter launch_id matches the current runtime capsule"⟩
      return ⟨.mismatched, currentLaunchId, some live,
        "live adapter launch_id does not match the current runtime capsule"⟩
    | none =>
      let disagrees := identity.system.any (· != current.system) || identity.adapter.any (· != current.adapter)
      let agrees ← contentAgrees current identity
      if disagrees || !agrees then
        return ⟨.mismatched, currentLaunchId, none,
          "live adapter identity disagrees with the current runtime capsule"⟩
      return ⟨.unmanaged, currentLaunchId, none,
        "live adapter did not advertise a launch_id, so capsule ownership is unproven"⟩

structure RuntimeDiagnostic where
  artifact : String
  kind : String
  reason : String
  blocksGenerationTransition : Bool
  deriving DecidableEq

def runtimeDiagnostic (artifact : String) (error : IoError) : RuntimeDiagnostic where
  artifact := artifact
  kind := match error.kind with
    | .fileTooLarge => "oversized"
    | .invalidData => "invalid"
    | .permissionDenied => "permission_denied"
    | .notFound => "missing"
    | _ => "io_error"
  reason := error.message
  blocksGenerationTransition := artifact != "adapter_failure"

/-! ## Observed links -/

structure ObservedLink where
  inner : InnerLink
  controlKey : Option String
  holder : ProcessIdentity
  current : Option CurrentManifest
  temporalPort : Option ℕ
  record : Option LinkRecord
  liveRecord : Option LinkRecord
  runtimeBinding : RuntimeBinding
  runtimeDiagnostics : List RuntimeDiagnostic
  deriving DecidableEq

namespace ObservedLink

def new (inner : InnerLink) (controlKey : Option String) (holder : ProcessIdentity) : ObservedLink :=
  ⟨inner, controlKey, holder, none, none, none, none, default, []⟩

def currentLocation (self : ObservedLink) : Option (ℕ × String) :=
  if self.runtimeBinding.state ≠ .bound then none
  else self.current.map fun current => (current.port, current.launchId)

/-- The manifest the wrapped link points to, or the artifact that could not be read. -/
def resolve (self : ObservedLink) : LinkProg (Except (String × IoError) (Option CurrentManifest)) :=
  match self.inner.endpointPort with
  | some port => do
    match ← readCurrent port with
    | .ok current => return .ok current
    | .error e => return .error ("current", e)
  | none =>
    if self.inner.exclusiveControl then
      match self.inner.identity.launchId with
      | some launchId => do
        match ← (currentForLaunch launchId).run with
        | .ok current => return .ok current
        | .error e => return .error ("runtime_lookup", e)
      | none => pure (.ok none)
    else pure (.ok none)

def refreshRuntime (self : ObservedLink) : LinkProg ObservedLink := do
  let resolved ← self.resolve
  let current := resolved.toOption.join
  let diagnostics := match resolved with
    | .ok _ => []
    | .error (artifact, e) => [runtimeDiagnostic artifact e]
  let binding ← Live.runtimeBinding current self.inner.identity (!self.inner.methods.isEmpty)
  match current with
  | none =>
    return { self with
      current := none, record := none, runtimeBinding := binding, runtimeDiagnostics := diagnostics }
  | some current =>
    match ← readLink current.port current.launchId with
    | .ok record =>
      return { self with
        current := some current
        record := record.filter fun r => r.launchId == current.launchId
        runtimeBinding := binding
        runtimeDiagnostics := diagnostics }
    | .error e =>
      return { self with
        current := some current
        record := none
        runtimeBinding := binding
        runtimeDiagnostics := diagnostics ++ [runtimeDiagnostic "link" e] }

def requireRuntimeLookup (self : ObservedLink) : Except IoError Unit :=
  match self.runtimeDiagnostics.find? fun d => d.artifact == "runtime_lookup" with
  | some diagnostic => .error ⟨.invalidData, diagnostic.reason⟩
  | none => .ok ()

section calls

variable (bytes : LinkRecord → Option ℕ)

def claimLeaseFor (self : ObservedLink) (expectedLaunchId : Option String) :
    LinkProg (ObservedLink × Except IoError LeaseView) := do
  let self ← self.refreshRuntime
  match self.requireRuntimeLookup with
  | .error e => return (self, .error e)
  | .ok () =>
    if expectedLaunchId.isNone ∧ self.runtimeBinding.state ≠ .bound then
      return (self, .ok LeaseView.unknown)
    match self.current with
    | none => return (self, .ok LeaseView.unknown)
    | some current =>
      if expectedLaunchId.any (· != current.launchId) then
        return (self, .error ⟨.wouldBlock, "runtime current generation changed before lease acquisition"⟩)
      match ← claimGenerationLease bytes current.port current.launchId self.holder self.controlKey none with
      | .ok updated =>
        let view ← recordLeaseView (some updated) self.holder
        return ({ self with record := some updated }, .ok view)
      | .error e =>
        if e.kind = .permissionDenied then
          let self ← self.refreshRuntime
          let view ← recordLeaseView self.record self.holder
          return (self, .ok view)
        return (self, .error e)

def claimLease (self : ObservedLink) : LinkProg (ObservedLink × Except IoError LeaseView) := do
  let self ← self.refreshRuntime
  match self.requireRuntimeLookup with
  | .error e => return (self, .error e)
  | .ok () =>
    if self.runtimeBinding.state ≠ .bound then
      return (self, .ok LeaseView.unknown)
    self.claimLeaseFor bytes none

def temporalMethods : List String :=
  ["pause", "set_input", "step", "step_instructions", "step_input_polls", "poll_events",
    "begin_temporal_operation", "finish_temporal_operation"]

/-- The call belongs to the active operation of this very controller. -/
def ownsTemporal (self : ObservedLink) (launchId : String) (method : String) (params : Json)
    (operation : TemporalOperation) : Bool :=
  operation.state == .active && operation.key.runtime == launchId && operation.holder == self.holder &&
    operation.controlSessionKey == self.controlKey &&
    params.get "_temporal_owner" == some operation.key.toValue && temporalMethods.contains method

/-- The call is the wire transaction of a capture that this controller is arming. -/
def ownsArming (self : ObservedLink) (method : String) (params : Json) (capsule : CaptureCapsule) : Bool :=
  method == "record_window" && capsule.state == .arming &&
    (params.get "capture_id").bind Json.asStr == some capsule.captureId &&
    capsule.lease.holder == self.holder && capsule.lease.controlSessionKey == self.controlKey

/-- What the stored capsule says about a mutation. -/
def captureAdmits (self : ObservedLink) (method : String) (params : Json) :
    Option CaptureCapsule → Except LinkError Unit
  | none => .ok ()
  | some capsule =>
    match capsule.generationMutationBlocker with
    | none => .ok ()
    | some blocker =>
      if self.ownsArming method params capsule then .ok ()
      else .error (.emulator "recording_quarantined" blocker)

def ensureMutationLease (self : ObservedLink) (method : String) (params : Json) :
    LinkProg (ObservedLink × Except LinkError Unit) := do
  match ← self.claimLease bytes with
  | (self, .error e) => return (self, .error (.protocol ("lease: " ++ e.message)))
  | (self, .ok view) =>
    match view.state with
    | .held =>
      match self.currentLocation with
      | none => return (self, .ok ())
      | some (port, launchId) =>
        match ← readLink port launchId with
        | .error e => return (self, .error (.protocol ("temporal safety metadata: " ++ e.message)))
        | .ok record =>
          if (record.bind LinkRecord.temporalOperation).any
              (fun operation => !self.ownsTemporal launchId method params operation) then
            return (self, .error (.emulator "temporal_quarantined"
              "this runtime has a temporal operation without verified cleanup"))
          match ← readCapture port launchId with
          | .error e =>
            return (self, .error (.protocol ("recording capture safety metadata is invalid: " ++ e.message)))
          | .ok capsule => return (self, self.captureAdmits method params capsule)
    | .unknown =>
      -- No generation is bound, so there is no lease to guard.
      if self.currentLocation.isNone && self.inner.exclusiveControl then
        return (self, .ok ())
      return (self, .error .busy)
    | .occupied => return (self, .error .busy)
    | .available => return (self, .error .busy)

/-! ### Recording what was seen -/

def recoverFailure (now : ℕ) (failure : FailureObservation) : FailureObservation :=
  if failure.active then { failure with active := false, recoveredAtUnixMs := some now } else failure

def observeSuccess (identity : EmulatorIdentity) (method : String) (result : Json) (now : ℕ)
    (record : LinkRecord) : LinkRecord :=
  { record with
    lastIdentity := some identity.withoutToken
    lastResponseUnixMs := some now
    lastMethod := some method
    lastStatus := if method = "status" then some result else record.lastStatus
    transportState := .connected
    consecutiveTimeouts := 0
    lastFailure := record.lastFailure.map (recoverFailure now)
    updatedAtUnixMs := now }

def observeFailure (transport : TransportState) (method kind : String) (now : ℕ) (record : LinkRecord) :
    LinkRecord :=
  { record with
    transportState := transport
    consecutiveTimeouts :=
      if kind = "request_timeout" then min (record.consecutiveTimeouts + 1) (2 ^ 32 - 1)
      else record.consecutiveTimeouts
    lastFailure := some ⟨true, kind, method, now, none⟩
    updatedAtUnixMs := now }

def observeUpdate (launchId : String) (observe : ℕ → LinkRecord → LinkRecord) : LinkUpdate := fun env record =>
  (LinkRecord.bounded bytes (observe env.now (launchRecord launchId env.now record))).map .ok

def observeLive (self : ObservedLink) (observation : ℕ → LinkRecord → LinkRecord) : LinkProg ObservedLink := do
  let now ← LinkProg.now
  let record := self.liveRecord.getD (LinkRecord.new (self.inner.identity.launchId.getD "unmanaged") now)
  return { self with liveRecord := some (observation now record) }

/-- The common course of `record_success` and `record_failure`: claim the lease of a bound launch, then keep
the observation in its record, or in the link's own record where no launch is bound. -/
def observe (self : ObservedLink) (observation : ℕ → LinkRecord → LinkRecord) : LinkProg ObservedLink := do
  let self ← self.refreshRuntime
  match self.currentLocation with
  | none => self.observeLive observation
  | some _ =>
    match ← self.claimLease bytes with
    | (self, .error _) => return self
    | (self, .ok view) =>
      if view.state ≠ .held then
        return self
      match self.currentLocation with
      | none => self.observeLive observation
      | some (port, launchId) =>
        match ← updateLink port launchId (observeUpdate bytes launchId observation) with
        | .ok updated => refreshRuntime { self with record := some updated }
        | .error _ => self.refreshRuntime

def recordSuccess (self : ObservedLink) (method : String) (result : Json) : LinkProg ObservedLink :=
  self.observe bytes (observeSuccess self.inner.identity method result)

def recordFailure (self : ObservedLink) (method : String) (error : LinkError) : LinkProg ObservedLink :=
  match error with
  | .identityMismatch _ _ | .portBusy _ | .busy | .noSuchEmulator _ | .ambiguous _ => pure self
  | _ =>
    let transport := if error = .timeout ∧ self.inner.methods ≠ [] then .stalled else .disconnected
    self.observe bytes (observeFailure transport method error.kind)

/-! ### Temporal operations -/

def holdsLease (self : ObservedLink) (record : LinkRecord) : Bool :=
  record.lease.any fun lease => lease.holder == self.holder && lease.controlSessionKey == self.controlKey

def beginUpdate (self : ObservedLink) (key : OperationKey) : LinkUpdate := fun env record =>
  match record with
  | none => some (.error ⟨.other, "runtime lease record missing"⟩)
  | some record =>
    if record.launchId ≠ key.runtime ∨ record.temporalOperation.isSome ∨ !self.holdsLease record then
      some (.error ⟨.other, "temporal admission ownership changed"⟩)
    else
      (LinkRecord.bounded bytes { record with
        temporalOperation := some ⟨key, self.holder, self.controlKey, .active⟩
        updatedAtUnixMs := env.now }).map .ok

def beginTemporalControl (self : ObservedLink) (key : OperationKey) :
    LinkProg (ObservedLink × Except LinkError Unit) := do
  match key.validate with
  | .error e => return (self, .error (.protocol e))
  | .ok () =>
    match ← self.ensureMutationLease bytes "begin_temporal_control" (.obj []) with
    | (self, .error e) => return (self, .error e)
    | (self, .ok ()) =>
      match self.currentLocation with
      | none =>
        return (self, .error (.emulator "unsupported" "temporal control requires a durable bound runtime"))
      | some (port, runtime) =>
        if runtime ≠ key.runtime then
          return (self, .error (.protocol "temporal runtime mismatch"))
        match ← updateCurrentLink port key.runtime (self.beginUpdate bytes key) with
        | .error e => return (self, .error (.protocol ("persist temporal admission: " ++ e.message)))
        | .ok updated => return ({ self with record := some updated, temporalPort := some port }, .ok ())

def finishUpdate (self : ObservedLink) (key : OperationKey) (verified : Bool) : LinkUpdate := fun env record =>
  match record with
  | none => some (.error ⟨.other, "temporal record missing"⟩)
  | some record =>
    if record.launchId ≠ key.runtime ∨ !self.holdsLease record then
      some (.error ⟨.other, "temporal completion lease changed"⟩)
    else match record.temporalOperation with
      | none => some (.error ⟨.other, "temporal owner missing"⟩)
      | some operation =>
        if operation.key ≠ key ∨ operation.holder ≠ self.holder ∨
            operation.controlSessionKey ≠ self.controlKey ∨ operation.state ≠ .active then
          some (.error ⟨.other, "temporal completion ownership changed"⟩)
        else
          (LinkRecord.bounded bytes { record with
            temporalOperation := if verified then none else some { operation with state := .unverified }
            updatedAtUnixMs := env.now }).map .ok

def finishTemporalControl (self : ObservedLink) (key : OperationKey) (verified : Bool) :
    LinkProg (ObservedLink × Except LinkError Unit) := do
  let self ← self.refreshRuntime
  match (if verified then self.requireRuntimeLookup else .ok ()) with
  | .error e => return (self, .error (.protocol e.message))
  | .ok () =>
    match self.temporalPort.or (self.currentLocation.map Prod.fst) with
    | none => return (self, .error (.protocol "temporal runtime location missing"))
    | some port =>
      if verified ∧ self.inner.identity.launchId ≠ some key.runtime then
        return (self, .error (.protocol "verified temporal cleanup belongs to another runtime"))
      match ← updateCurrentLink port key.runtime (self.finishUpdate bytes key verified) with
      | .error e => return (self, .error (.protocol ("persist temporal completion: " ++ e.message)))
      | .ok updated =>
        return ({ self with
          record := some updated
          temporalPort := if verified then none else self.temporalPort }, .ok ())

/-! ### Calls -/

def isReadOnly (method : String) : Bool :=
  ["hello", "read_input_polls", "status", "get_state", "read_memory", "read_memory_batch", "screenshot",
    "get_trace", "call_stack", "disassemble", "find_pattern", "get_rom_info", "poll_events",
    "get_video_state", "resolve_tile"].contains method

def requiresControlLease (method : String) : Bool := method == "poll_events" || !isReadOnly method

def forward (self : ObservedLink) (method : String) (params : Json) :
    LinkProg (ObservedLink × Except LinkError Json) := do
  match ← innerCall method params with
  | (.ok value, inner) => return (← recordSuccess bytes { self with inner } method value, .ok value)
  | (.error e, inner) => return (← recordFailure bytes { self with inner } method e, .error e)

def call (self : ObservedLink) (method : String) (params : Json) :
    LinkProg (ObservedLink × Except LinkError Json) := do
  if requiresControlLease method then
    match ← self.ensureMutationLease bytes method params with
    | (self, .error e) => return (self, .error e)
    | (self, .ok ()) => self.forward bytes method params
  else self.forward bytes method params

end calls

end ObservedLink

end Emucap.Live
