import Emucap.Live.Link

/-!
# Owned producer sessions

The producer's side of a control session (`live/reconnect/owned.rs`): a request under an operation key runs in
`execute_cancellable_attached`, which reads the same transport. `step` is one turn of whichever loop is running.
-/

namespace Emucap.Live.Reconnect

open Emucap.Lib

inductive BridgeDirective where
  | continue
  | terminate
  deriving DecidableEq

structure BridgeReply where
  response : Response
  directive : BridgeDirective

/-- Why a session ends, or a native request loses its transport. `outside` is a reason that comes from
the socket, the decoder or the probe. -/
inductive Fault where
  | outside (reason : String)
  | malformed
  | envelope (error : EnvelopeError)
  | lifecycleRuntime
  | invalidAttachment (message : String)
  | registrationChanged
  | replacedWithoutDetach
  | lifecycleRetired
  | noSession
  | requestMismatch
  | transportMetadata
  | reservedFields
  | unsupportedVersion
  | invalidKey (message : String)
  | admission (message : String)
  | parentRuntime
  | unnegotiated
  | attachBeforeDetach
  | missingAttachment
  | attachmentMismatch
  | exited (message : String)
  | requestRetired
  deriving DecidableEq

def Fault.text : Fault → String
  | .outside reason => reason
  | .malformed => "malformed document"
  | .envelope .unrelatedFields => "lifecycle envelope has unrelated fields"
  | .envelope .malformed => "malformed lifecycle envelope"
  | .envelope (.attachment message) => message
  | .envelope .runtime => "invalid lifecycle runtime"
  | .lifecycleRuntime => "lifecycle runtime mismatch"
  | .invalidAttachment message => message
  | .registrationChanged => "producer transport registration changed"
  | .replacedWithoutDetach => "attachment replaced without detach"
  | .lifecycleRetired => "native lifecycle cleanup retired control"
  | .noSession => "no attached control session"
  | .requestMismatch => "request attachment mismatch"
  | .transportMetadata => "invalid transport attachment metadata"
  | .reservedFields => "reserved lifecycle fields"
  | .unsupportedVersion => "unsupported protocol version"
  | .invalidKey message => message
  | .admission message => message
  | .parentRuntime => "parent runtime mismatch"
  | .unnegotiated => "unnegotiated lifecycle envelope"
  | .attachBeforeDetach => "attach arrived before active attachment detached"
  | .missingAttachment => "missing authenticated control attachment"
  | .attachmentMismatch => "control attachment mismatch"
  | .exited message => message
  | .requestRetired => "native request retired control"

/-! ## The route -/

structure Route where
  runtime : String
  current : Option Attachment
  broker : Option (String × Nat)

/-- The handler's answer to a lifecycle event. -/
abbrev Lifecycle := SessionEvent → Except String BridgeDirective

def lifecycle (handler : Lifecycle) (event : SessionEvent) : Except Fault Unit :=
  match handler event with
  | .error reason => .error (.outside reason)
  | .ok .continue => .ok ()
  | .ok .terminate => .error .lifecycleRetired

namespace Route

def event (r : Route) (kind : EventKind) (attachment : Attachment) : SessionEvent :=
  ⟨kind, r.runtime, attachment⟩

/-- The current attachment is given up before the handler is told. -/
def close (r : Route) (handler : Lifecycle) : Except Fault Unit × Route :=
  match r.current with
  | none => (.ok (), r)
  | some attachment =>
    (lifecycle handler (r.event .detach attachment), { r with current := none })

def adopt (r : Route) (handler : Lifecycle) (attachment : Attachment) : Except Fault Unit × Route :=
  match r.broker with
  | some _ => (.ok (), r)
  | none =>
    match r.close handler with
    | (.error e, r) => (.error e, r)
    | (.ok (), r) => (.ok (), { r with broker := some (attachment.brokerInstance, attachment.registration) })

def attach (r : Route) (handler : Lifecycle) (event : SessionEvent) : Except Fault Unit × Route :=
  match r.adopt handler event.attachment with
  | (.error e, r) => (.error e, r)
  | (.ok (), r) =>
    if r.broker ≠ some (event.attachment.brokerInstance, event.attachment.registration) then
      (.error .registrationChanged, r)
    else if r.current.any fun current => current ≠ event.attachment then
      (.error .replacedWithoutDetach, r)
    else match lifecycle handler event with
      | .error e => (.error e, r)
      | .ok () => (.ok (), { r with current := some event.attachment })

def apply (r : Route) (handler : Lifecycle) (event : SessionEvent) : Except Fault Unit × Route :=
  if event.runtime ≠ r.runtime then (.error .lifecycleRuntime, r)
  else match event.attachment.validate with
    | .error message => (.error (.invalidAttachment message), r)
    | .ok () =>
      match event.kind with
      | .attach => r.attach handler event
      | .detach => if r.current = some event.attachment then r.close handler else (.ok (), r)

/-- The stamp is taken out of the request and must be the current attachment's. -/
def requestAttachment (r : Route) (request : Request) : Except Fault (Attachment × Request) :=
  match r.current with
  | none => .error .noSession
  | some current =>
    let stamp := request.params.get attachmentField
    let request := { request with params := request.params.remove attachmentField }
    match r.broker, stamp with
    | some _, some value =>
      match Attachment.fromValue value with
      | none => .error .malformed
      | some observed => if observed ≠ current then .error .requestMismatch else .ok (current, request)
    | none, none => .ok (current, request)
    | _, _ => .error .transportMetadata

end Route

/-! ## Requests -/

structure TemporalAdmission where
  runtime : String
  methods : List String

/-- The key of a child operation, if the request carries one. -/
def TemporalAdmission.admitKey (a : TemporalAdmission) (request : Request) :
    Except Fault (Option OperationKey) :=
  match request.params.get "_control" with
  | none => .ok none
  | some envelope =>
    if request.v ≠ protocolVersion then .error (.admission "unsupported protocol version")
    else if request.method ∉ a.methods then
      .error (.admission "temporal cancellation is unavailable for this method")
    else match OperationKey.fromValue envelope with
      | none => .error .malformed
      | some key =>
        match key.validate with
        | .error message => .error (.admission message)
        | .ok () =>
          if key.runtime ≠ a.runtime ∨ a.runtime = "" then
            .error (.admission "cancellation runtime does not match this producer")
          else .ok (some key)

def parentKey (request : Request) : Except Fault (Option OperationKey) :=
  let named := if request.method = "begin_temporal_operation" ∨
      request.method = "finish_temporal_operation" then request.params.get "parent" else none
  match (request.params.get "_temporal_owner").or named with
  | none => .ok none
  | some value =>
    match OperationKey.fromValue value with
    | none => .error .malformed
    | some key => .ok (some key)

def errorResponse (id : Nat) (kind message : String) : Response :=
  ⟨id, false, none, some ⟨kind, message⟩⟩

def statusResponse (id : Nat) (status : String) : Response :=
  ⟨id, true, some (.obj [("status", .str status)]), none⟩

/-! ## A native request with control -/

/-- `execute_cancellable_attached` between two turns of its loop. -/
structure Execution where
  id : Nat
  key : OperationKey
  attachment : Option Attachment
  cancelled : Bool
  transportError : Option Fault
  sessionEvent : Option SessionEvent

/-- A control line: a lifecycle event, with the detach of the active attachment kept, or a request. -/
inductive Control where
  | event (detached : Option SessionEvent)
  | request (request : Request)

/-- Check and remove the stamp of a control request. -/
def takeStamp (value : Json) : Option Attachment → Except Fault Json
  | none => .ok value
  | some active =>
    match (value.get "params").filter Json.isObject with
    | none => .error .missingAttachment
    | some params =>
      match params.get attachmentField with
      | none => .error .missingAttachment
      | some stamp =>
        match Attachment.fromValue stamp with
        | none => .error .malformed
        | some stamp =>
          if stamp ≠ active then .error .attachmentMismatch
          else .ok (value.set "params" (params.remove attachmentField))

def Execution.parseControl (x : Execution) (line : Line) : Except Fault Control :=
  match line.parse with
  | none => .error .malformed
  | some value =>
    match SessionEvent.fromEnvelope value with
    | .error e => .error (.envelope e)
    | .ok (some event) =>
      match x.attachment with
      | none => .error .unnegotiated
      | some active =>
        if event.runtime ≠ x.key.runtime then .error .lifecycleRuntime
        else if event.kind ≠ .detach then .error .attachBeforeDetach
        else .ok (.event (if event.attachment = active then some event else none))
    | .ok none =>
      match takeStamp value x.attachment with
      | .error e => .error e
      | .ok value =>
        match Request.fromValue value with
        | none => .error .malformed
        | some request => .ok (.request request)

/-- The answer to a control request; a cancellation of the running key is noted. -/
def Execution.answer (x : Execution) (control : Request) : Response × Execution :=
  if control.v ≠ protocolVersion then
    (errorResponse control.id "protocol_error" "unsupported protocol version", x)
  else if control.method = "cancel_operation" then
    match (OperationKey.fromValue control.params).filter fun target => target.Valid with
    | none => (errorResponse control.id "bad_params" "invalid cancellation identity", x)
    | some target =>
      if target = x.key then (statusResponse control.id "requested", { x with cancelled := true })
      else (statusResponse control.id "not_active", x)
  else (errorResponse control.id "busy" "native operation is active", x)

def Execution.fail (x : Execution) (fault : Fault) : Execution :=
  { x with transportError := some fault, cancelled := true }

/-- What a control line does to the execution, and the response it wants written. -/
def Execution.control (x : Execution) (line : Line) : Option Response × Execution :=
  if line.isBlank then (none, x)
  else match x.parseControl line with
    | .error fault => (none, x.fail fault)
    | .ok (.event none) => (none, x)
    | .ok (.event (some event)) => (none, { x with cancelled := true, sessionEvent := some event })
    | .ok (.request request) => ((some (x.answer request).1), (x.answer request).2)

/-! ## The session -/

/-- How a session ends. -/
inductive SessionEnd where
  | frontDisconnected
  | dependencyTerminal (fault : Fault)
  | failed (fault : Fault)

inductive Mode where
  | idle
  | serving (id : Nat) (writeError : Option Fault)
  | executing (x : Execution)
  | ended (result : SessionEnd)

/-- A call of `handler.request`, with the position of its line on the transport. -/
structure Served where
  position : Nat
  attachment : Attachment
  request : Request

structure Producer where
  route : Route
  mode : Mode
  position : Nat
  unread : List Line
  calls : List Served
  written : List Response

inductive Poll where
  | next
  | pending
  | closed
  | failed (reason : String)

inductive Worker where
  | running
  | replied (reply : BridgeReply)
  | gone

/-- What one turn learns from outside. -/
structure Choice where
  probe : Option String
  poll : Poll
  lifecycle : Lifecycle
  activeParentKey : Option OperationKey
  worker : Worker
  readTimeout : Except String Unit
  write : Except String Unit
  workingDue : Bool
  workingWrite : Except String Unit

namespace Producer

/-- A transport as `serve_one` opens it: the direct attachment is current. -/
def new (runtime : String) (direct : Attachment) (lines : List Line) : Producer :=
  ⟨⟨runtime, some direct, none⟩, .idle, 0, lines, [], []⟩

def fail (p : Producer) (fault : Fault) : Producer := { p with mode := .ended (.failed fault) }

def terminal (p : Producer) (fault : Fault) : Producer :=
  { p with mode := .ended (.dependencyTerminal fault) }

def write (p : Producer) (c : Choice) (response : Response) : Producer :=
  match c.write with
  | .error reason => p.fail (.outside reason)
  | .ok () => { p with written := p.written ++ [response] }

def applyEvent (p : Producer) (c : Choice) (event : SessionEvent) : Producer :=
  match p.route.apply c.lifecycle event with
  | (.error fault, route) => { p with route := route }.terminal fault
  | (.ok (), route) => { p with route := route }

def dispatch (a : TemporalAdmission) (p : Producer) (c : Choice) (position : Nat)
    (attachment : Attachment) (request : Request) : Producer :=
  match a.admitKey request, parentKey request with
  | .error fault, _ => p.fail fault
  | .ok _, .error fault => p.fail fault
  | .ok child, .ok parent =>
    let call : Served := ⟨position, attachment, request⟩
    match (child.or parent).or c.activeParentKey with
    | none => { p with mode := .serving request.id none, calls := p.calls ++ [call] }
    | some key =>
      match key.validate with
      | .error message => p.fail (.invalidKey message)
      | .ok () =>
        if key.runtime ≠ a.runtime then p.fail .parentRuntime
        else
          let active := p.route.broker.map fun _ => attachment
          match active.map Attachment.validate, c.readTimeout with
          | some (.error message), _ => p.fail (.invalidAttachment message)
          | _, .error reason => p.fail (.outside reason)
          | _, .ok () =>
            { p with
              mode := .executing ⟨request.id, key, active, false, none, none⟩
              calls := p.calls ++ [call] }

def request (a : TemporalAdmission) (p : Producer) (c : Choice) (position : Nat) (value : Json) :
    Producer :=
  if (value.get "method").bind Json.asStr = some eventField ∨ (value.get attachmentField).isSome then
    p.fail .reservedFields
  else match Request.fromValue value with
    | none => p.fail .malformed
    | some request =>
      if request.v ≠ protocolVersion then p.fail .unsupportedVersion
      else match p.route.requestAttachment request with
        | .error fault => p.fail fault
        | .ok (attachment, request) =>
          if request.method = "cancel_operation" then
            match OperationKey.fromValue request.params with
            | none => p.fail .malformed
            | some target =>
              match target.validate with
              | .error message => p.fail (.invalidKey message)
              | .ok () => p.write c (statusResponse request.id "not_active")
          else p.dispatch a c position attachment request

def receive (a : TemporalAdmission) (p : Producer) (c : Choice) (position : Nat) (line : Line) :
    Producer :=
  if line.isBlank then p
  else match line.parse with
    | none => p.fail .malformed
    | some value =>
      match SessionEvent.fromEnvelope value with
      | .error e => p.fail (.envelope e)
      | .ok (some event) => p.applyEvent c event
      | .ok none => p.request a c position value

def idle (a : TemporalAdmission) (p : Producer) (c : Choice) : Producer :=
  match c.probe with
  | some reason => p.terminal (.outside reason)
  | none =>
    match c.poll, p.unread with
    | .next, line :: unread =>
      { p with position := p.position + 1, unread := unread }.receive a c p.position line
    | .closed, _ => { p with mode := .ended .frontDisconnected }
    | .failed reason, _ => p.fail (.outside reason)
    | _, _ => p

/-- Write the reply of a finished request, unless the transport failed before. -/
def writeReply (p : Producer) (write : Except String Unit) (reply : BridgeReply) :
    Option Fault → Producer × Option Fault
  | some fault => (p, some fault)
  | none =>
    match write with
    | .ok () => ({ p with written := p.written ++ [reply.response] }, none)
    | .error reason => (p, some (.outside reason))

/-- What a finished request leaves: the session goes on only if the handler and the transport do. -/
def settle (p : Producer) (directive : BridgeDirective) (transportError : Option Fault) : Producer :=
  match directive, transportError with
  | .terminate, _ => p.terminal .requestRetired
  | .continue, some fault => p.fail fault
  | .continue, none => { p with mode := .idle }

/-- One turn of `serve_request_controlled`; the transport is not read. -/
def serve (p : Producer) (c : Choice) (id : Nat) (writeError : Option Fault) : Producer :=
  match c.worker with
  | .gone => p.fail (.exited "bridge request handler exited without a response")
  | .running =>
    match writeError, c.write with
    | none, .ok () => { p with written := p.written ++ [statusResponse id "working"] }
    | none, .error reason => { p with mode := .serving id (some (.outside reason)) }
    | some _, _ => p
  | .replied reply =>
    let done := p.writeReply c.write reply writeError
    done.1.settle reply.directive done.2

/-- The end of a native request: a detach it saw is applied to the route first. -/
def complete (p : Producer) (c : Choice) (x : Execution) (directive : BridgeDirective)
    (transportError : Option Fault) : Producer :=
  match x.sessionEvent with
  | none => p.settle directive transportError
  | some event =>
    match p.route.apply c.lifecycle event with
    | (.error fault, route) => { p with route := route }.terminal fault
    | (.ok (), route) => { p with route := route }.settle directive transportError

def working (p : Producer) (c : Choice) (x : Execution) : Producer :=
  if x.transportError.isNone ∧ c.workingDue = true then
    match c.workingWrite with
    | .ok () =>
      { p with mode := .executing x, written := p.written ++ [statusResponse x.id "working"] }
    | .error reason => { p with mode := .executing (x.fail (.outside reason)) }
  else { p with mode := .executing x }

/-- The control part of a turn: one poll of the transport and the answer to what it yields. -/
def control (p : Producer) (c : Choice) (x : Execution) : Producer :=
  match c.poll, p.unread with
  | .next, line :: unread =>
    let p := { p with position := p.position + 1, unread := unread }
    match x.control line, c.write with
    | (none, x), _ => p.working c x
    | (some response, x), .ok () => { p with written := p.written ++ [response] }.working c x
    | (some _, x), .error reason => p.working c (x.fail (.outside reason))
  | .closed, _ => p.working c (x.fail (.outside "control connection closed"))
  | .failed reason, _ => p.working c (x.fail (.outside reason))
  | _, _ => p.working c x

/-- One turn of `execute_cancellable_attached`: the worker first, then control unless the transport or
the session is lost. -/
def execute (p : Producer) (c : Choice) (x : Execution) : Producer :=
  match c.worker with
  | .gone => p.fail (.exited "cancellable handler exited without a response")
  | .replied reply =>
    let done := p.writeReply c.write reply x.transportError
    let restored := match c.readTimeout with
      | .ok () => none
      | .error reason => some (.outside reason)
    done.1.complete c x reply.directive (done.2.or restored)
  | .running =>
    if x.transportError.isSome ∨ x.sessionEvent.isSome then p
    else p.control c x

def step (a : TemporalAdmission) (p : Producer) (c : Choice) : Producer :=
  match p.mode with
  | .idle => p.idle a c
  | .serving id writeError => p.serve c id writeError
  | .executing x => p.execute c x
  | .ended _ => p

def run (a : TemporalAdmission) (p : Producer) (choices : List Choice) : Producer :=
  choices.foldl (step a) p

end Producer

end Emucap.Live.Reconnect
