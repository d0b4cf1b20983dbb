import Emucap.Lib.Stateful
import Emucap.Live.Generations
import Emucap.Live.Tcp.Call

/-!
# Which port a link binds

`select_runtime_generation` looks at the generations of sixteen ports. A control process attaches to the one it can
reclaim, gives up where its own session is in the way, and otherwise binds a port itself (`ensure_connected`).
-/

namespace Emucap.Live.Tcp

open Emucap.Lib

/-! ## The store, the processes and the network -/

structure ExecutionProfileIdentity where
  id : String
  conditionsSha256 : String
  deriving DecidableEq

/-- `CurrentManifest` with the fields that only a public view shows. -/
structure LaunchManifest extends CurrentManifest where
  contentIdentity : Option Json
  build : Option String
  bridge : Option ProcessIdentity
  backendEndpoint : Option String
  executionProfile : Option ExecutionProfileIdentity
  startFrozen : Bool

/-- What is on disk for one port, as far as it can be read. -/
structure PortFiles where
  current : Except IoError (Option LaunchManifest)
  link : String → Except IoError (Option LinkRecord)
  auth : String → Except IoError (Option String)

structure Processes where
  state : ProcessIdentity → ProcessState
  /-- this process -/
  holder : ProcessIdentity
  /-- `control_session_key` -/
  controlKey : Option String

/-- `io_to_link` for an error of the store. -/
def storeError (e : IoError) : LinkError := .protocol ("io: " ++ e.message)

def stored {α : Type} : Except IoError α → Except LinkError α
  | .ok a => .ok a
  | .error e => .error (storeError e)

def PortFiles.readCurrent (files : PortFiles) (port : UInt16) : Except IoError (Option LaunchManifest) := do
  let current ← files.current
  let _ ← RuntimeStore.readCurrent port.toNat (.ok (current.map LaunchManifest.toCurrentManifest))
  return current

def PortFiles.readLink (files : PortFiles) (launchId : String) : Except IoError (Option LinkRecord) := do
  validateLaunchId launchId
  files.link launchId

def PortFiles.readAuth (files : PortFiles) (launchId : String) : Except IoError (Option String) := do
  validateLaunchId launchId
  match ← files.auth launchId with
  | none => return none
  | some text =>
    let token := trim text.toList
    require (token ≠ []) ⟨.invalidData, "empty runtime auth file"⟩
    return some (String.ofList token)

namespace LaunchManifest

variable (processes : Processes) (current : LaunchManifest)

def processState : ProcessState := processes.state current.emulator

def bridgeProcessState : Option ProcessState := current.bridge.map processes.state

/-! ## Public values -/

def stateName : ProcessState → String
  | .alive => "alive"
  | .exited => "exited"
  | .unknown => "unknown"

def leaseName : LeaseState → String
  | .held => "held"
  | .available => "available"
  | .occupied => "occupied"
  | .unknown => "unknown"

def nextSafeAction (emulator : ProcessState) (bridge : Option ProcessState) (lease : LeaseState) : String :=
  if lease = .occupied then "coordinate_with_current_controller"
  else if emulator = .exited ∧ lease = .unknown then "inspect_lease_before_generation_transition"
  else
    match emulator, bridge with
    | .alive, some .exited => "recover_bridge_or_replace"
    | .alive, some .unknown => "inspect_bridge_identity_before_recovery"
    | .alive, _ => "reattach_or_inspect"
    | .exited, some .alive => "cleanup_owned_bridge_then_launch"
    | .exited, some .unknown => "inspect_bridge_identity_before_launch"
    | .exited, _ => "launch_allowed"
    | .unknown, _ => "inspect_process_identity_before_replace"

def object (fields : List (String × Json)) : Json := fields.foldl (fun v f => v.set f.1 f.2) (.obj [])

def optional (value : Option Json) : Json := value.getD .null

def leaseValue (lease : LeaseView) : Json :=
  object ((("state", .str (leaseName lease.state))) :: (lease.holderPid.map fun pid => ("holder_pid", .nat pid)).toList)

def profileValue (profile : ExecutionProfileIdentity) : Json :=
  object [("id", .str profile.id), ("conditions_sha256", .str profile.conditionsSha256)]

def publicValueWithLease (lease : LeaseView) : Json :=
  let value := object [
    ("launch_id", .str current.launchId),
    ("port", .nat current.port),
    ("adapter", .str current.adapter),
    ("system", .str current.system),
    ("content", .str current.content),
    ("build", optional (current.build.map .str)),
    ("process_state", .str (stateName (current.processState processes))),
    ("emulator_pid", .nat current.emulator.pid),
    ("bridge_pid", optional (current.bridge.map fun p => .nat p.pid)),
    ("bridge_process_state", optional ((current.bridgeProcessState processes).map fun s => .str (stateName s))),
    ("backend_endpoint", optional (current.backendEndpoint.map .str)),
    ("execution_profile", optional (current.executionProfile.map profileValue)),
    ("start_frozen", .bool current.startFrozen),
    ("lease", leaseValue lease),
    ("next_safe_action", .str (nextSafeAction (current.processState processes)
      (current.bridgeProcessState processes) lease.state))]
  match current.contentIdentity with
  | none => value
  | some identity => (value.set "content_identity" identity).set "content_identity_binding" (.str "prelaunch")

end LaunchManifest

/-! ## Ports -/

def autoPortRange : UInt16 := 16

/-- `u16::checked_add`. -/
def checkedAddPort (base offset : UInt16) : Option UInt16 :=
  if base.toNat + offset.toNat < 2 ^ 16 then some (base + offset) else none

/-- The loops over the offsets: they end where the next port would be no port. -/
def portsFrom (base : UInt16) : List UInt16 → List UInt16
  | [] => []
  | offset :: offsets =>
    match checkedAddPort base offset with
    | none => []
    | some port => port :: portsFrom base offsets

/-- The ports of `0..AUTO_PORT_RANGE` after the base port. -/
def candidatePorts (base : UInt16) : List UInt16 :=
  portsFrom base ((List.range' 0 autoPortRange.toNat).map UInt16.ofNat)

def inPortRange (base port : UInt16) : Bool :=
  base ≤ port && port.toUInt32 < base.toUInt32 + autoPortRange.toUInt32

def isRandomCapability (random : List Char) : Bool :=
  random.length == 52 && random.all fun c =>
    ('0' ≤ c && c ≤ '9') || ('a' ≤ c && c ≤ 'h') || c == 'j' || c == 'k' || c == 'm' || c == 'n' ||
      ('p' ≤ c && c ≤ 't') || ('v' ≤ c && c ≤ 'z')

/-- `is_current_reclaim_token`; a capability has ASCII characters only. -/
def isCurrentReclaimToken (token : String) : Bool :=
  "reclaim-".toList.isPrefixOf token.toList && isRandomCapability (token.toList.drop "reclaim-".length)

/-! ## The selection -/

inductive RuntimeSelection where
  | scan (reservedPorts : List UInt16)
  | attach (port : UInt16) (token : String)
  | blocked (candidates : List Json)

/-- What the loop over the ports has collected. -/
structure Collected where
  preferred : List (UInt16 × String × Json)
  sameSessionBlocked : List Json
  unreclaimable : List Json
  reservedPorts : List UInt16

def Collected.empty : Collected := ⟨[], [], [], []⟩

section select
variable (processes : Processes) (store : UInt16 → PortFiles)

def leaseStateOf (lease : LeaseRecord) : LeaseState :=
  if lease.holder = processes.holder then .held
  else
    match processes.state lease.holder with
    | .alive => .occupied
    | .exited => .available
    | .unknown => .unknown

def mayBeLive (current : LaunchManifest) : Bool :=
  current.processState processes != .exited ||
    match current.bridgeProcessState processes with
    | none => false
    | some state => state != .exited

def sameControl (lease : LeaseRecord) : Bool :=
  match processes.controlKey with
  | none => false
  | some key => lease.controlSessionKey == some key

def candidateValue (port : UInt16) (current : LaunchManifest) (lease : LeaseRecord) (token : Option String) : Json :=
  ((current.publicValueWithLease processes ⟨leaseStateOf processes lease, some lease.holder.pid⟩).set "attach"
    (LaunchManifest.object [("port", .nat port.toNat), ("launch_id", .str current.launchId)])).set
    "reclaim_capability_available" (.bool token.isSome)

def collectOwn (port : UInt16) (current : LaunchManifest) (lease : LeaseRecord) (token : Option String)
    (c : Collected) : Collected :=
  let candidate := candidateValue processes port current lease token
  if current.processState processes ≠ .alive then
    { c with sameSessionBlocked := c.sameSessionBlocked ++ [candidate] }
  else
    match token with
    | none => { c with unreclaimable := c.unreclaimable ++ [candidate] }
    | some token =>
      match leaseStateOf processes lease with
      | .held | .available => { c with preferred := c.preferred ++ [(port, token, candidate)] }
      | .occupied | .unknown => { c with sameSessionBlocked := c.sameSessionBlocked ++ [candidate] }

/-- The part of the body of the loop for a generation whose port is reserved. -/
def visitReserved (port : UInt16) (current : LaunchManifest) (c : Collected) : Except LinkError Collected := do
  match (store port).readLink current.launchId with
  -- without readable ownership nothing can be attached, but the port stays reserved
  | .error _ => return c
  | .ok record =>
    match (record.filter fun r => r.launchId = current.launchId).bind LinkRecord.lease with
    | none => return c
    | some lease =>
      if ¬ sameControl processes lease then return c
      let token := (← stored ((store port).readAuth current.launchId)).filter isCurrentReclaimToken
      return collectOwn processes port current lease token c

def visitPort (c : Collected) (port : UInt16) : Except LinkError Collected := do
  match ← stored ((store port).readCurrent port) with
  | none => return c
  | some current =>
    if ¬ mayBeLive processes current then return c
    visitReserved processes store port current { c with reservedPorts := c.reservedPorts ++ [port] }

def Collected.selection (c : Collected) : RuntimeSelection :=
  match c.preferred with
  | [(port, token, _)] => .attach port token
  | _ :: _ :: _ => .blocked (c.preferred.map fun p => p.2.2)
  | [] =>
    if c.sameSessionBlocked ≠ [] then .blocked c.sameSessionBlocked
    else if c.unreclaimable ≠ [] then .blocked c.unreclaimable
    else .scan c.reservedPorts

def selectRuntimeGeneration (base : UInt16) : Except LinkError RuntimeSelection := do
  let c ← (candidatePorts base).foldlM (visitPort processes store) .empty
  return c.selection

end select

/-! ## Binding -/

/-- `TcpListener::bind`: the port is in use, or another error. -/
inductive BindError where
  | addrInUse
  | failed (e : SocketError)

/-- A listener, as the later calls on it find it. -/
structure Listener where
  port : UInt16
  setNonblocking : Except SocketError Unit
  localAddr : Except SocketError String

/-- What a bind brings: with port 0 the system chooses the port. -/
structure Bound where
  assigned : UInt16
  setNonblocking : Except SocketError Unit
  localAddr : Except SocketError String

inductive BindAttempt where
  | attach
  | persisted
  | scan
  deriving DecidableEq

/-- All that `ensure_connected` asks of the rest of the program and of the system. -/
structure Surroundings where
  processes : Processes
  store : UInt16 → PortFiles
  connected : Bool
  finishPreaccept : Except LinkError Bool
  preacceptPending : Bool
  bind : BindAttempt → UInt16 → Except BindError Bound
  ownSessionIdentity : Option String
  readPersistedPort : UInt16 → Except IoError (Option UInt16)
  writePersistedPort : UInt16 → UInt16 → Except IoError Unit
  reusableSessionToken : UInt16 → Except IoError (Option String)
  setReclaimToken : String → Except LinkError Unit
  writeSessionToken : UInt16 → String → Except IoError Unit
  armPreaccept : Except LinkError Unit
  finishNewPreaccept : Except LinkError Bool

/-- The fields of a link that binding reads and writes. -/
structure LinkState where
  addr : String
  listener : Option Listener
  sessionToken : String
  runtimeCandidates : List Json

abbrev LinkM := EStateM LinkError LinkState

def ofExcept {α : Type} : Except LinkError α → LinkM α
  | .ok a => pure a
  | .error e => throw e

def ofSocket {α : Type} : Except SocketError α → LinkM α
  | .ok a => pure a
  | .error e => throw (ioToLink e)

/-- `str::parse::<u16>`: decimal digits, perhaps after a plus sign. -/
def parsePort (text : List Char) : Option UInt16 :=
  let digits := if text.head? = some '+' then text.tail else text
  if digits = [] ∨ ¬ digits.all Char.isDigit then none
  else
    let value := digits.foldl (fun n c => 10 * n + (c.toNat - '0'.toNat)) 0
    if value < 2 ^ 16 then some (UInt16.ofNat value) else none

def splitAddr (addr : String) : String × UInt16 :=
  let tail := addr.toList.reverse.takeWhile (· ≠ ':')
  if tail.length = addr.toList.length then (addr, 47800)
  else
    match parsePort tail.reverse with
    | none => (addr, 47800)
    | some port => (String.ofList (addr.toList.take (addr.toList.length - tail.length - 1)), port)

def hostPort (host : String) (port : UInt16) : String := host ++ ":" ++ toString port.toNat

def setAddr (addr : String) : LinkM Unit := modify ({ · with addr := addr })

/-- A port that is not 0 is the one a listener is bound to. -/
def listenOn (port : UInt16) (bound : Bound) : Listener :=
  ⟨if port = 0 then bound.assigned else port, bound.setNonblocking, bound.localAddr⟩

/-- `local_addr`, or the address that was asked for. -/
def Listener.address (listener : Listener) (asked : String) : String :=
  match listener.localAddr with
  | .ok addr => addr
  | .error _ => asked

section ensure
variable (s : Surroundings) (host : String) (base : UInt16)

def bindAttach (port : UInt16) : LinkM Listener :=
  match s.bind .attach port with
  | .error .addrInUse => throw (.portBusy (hostPort host port))
  | .error (.failed e) => throw (ioToLink e)
  | .ok bound => do
    let listener := listenOn port bound
    ofSocket listener.setNonblocking
    setAddr (listener.address (hostPort host port))
    return listener

/-- What the selection leads to: a listener with the token to reclaim, or the ports to leave alone. -/
def beginBinding : LinkM (Option (Listener × String) × List UInt16) := do
  modify ({ · with runtimeCandidates := [] })
  if base = 0 then return (none, [])
  match ← ofExcept (selectRuntimeGeneration s.processes s.store base) with
  | .attach port token => do
    let listener ← bindAttach s host port
    return (some (listener, token), [])
  | .blocked candidates => do
    modify ({ · with runtimeCandidates := candidates })
    throw (.portBusy (hostPort host base))
  | .scan reserved => return (none, reserved)

/-- The attempt on the port of the last run; whatever goes wrong, the scan is next. -/
def tryPersisted (reserved : List UInt16) (persisted : Option UInt16) : LinkM (Option Listener) :=
  match persisted with
  | none => return none
  | some port => do
    if ¬ (inPortRange base port ∧ port ∉ reserved) then return none
    match s.bind .persisted port with
    | .error _ => return none
    | .ok bound =>
      let listener := listenOn port bound
      match listener.setNonblocking with
      | .error _ => return none
      | .ok () => do
        setAddr (listener.address (hostPort host port))
        return some listener

def scanPorts (reserved : List UInt16) : List UInt16 → LinkM (Option Listener)
  | [] => return none
  | port :: ports => do
    if port ∈ reserved then scanPorts reserved ports
    else
      match s.bind .scan port with
      | .error .addrInUse => scanPorts reserved ports
      | .error (.failed e) => throw (ioToLink e)
      | .ok bound => do
        let listener := listenOn port bound
        ofSocket listener.setNonblocking
        setAddr (listener.address (hostPort host port))
        return some listener

def liveCurrentWithAuth (port : UInt16) : Except IoError (Option String) := do
  match ← (s.store port).readCurrent port with
  | none => return none
  | some current =>
    if current.processState s.processes ≠ .alive then return none
    (s.store port).readAuth current.launchId

/-- The token of the generation the listener reclaims, or of a live generation on the port of the last run. -/
def liveToken (listener : Listener) (reclaimToken : Option String) (fromPersist : Bool) : LinkM (Option String) :=
  if reclaimToken.isNone && fromPersist then ofExcept (stored (liveCurrentWithAuth s listener.port))
  else pure reclaimToken

def ownToken (listener : Listener) (live : Option String) : LinkM (Option String) :=
  if live.isNone then ofExcept (stored (s.reusableSessionToken listener.port)) else pure live

def useToken (listener : Listener) : Option String → LinkM Unit
  | some token => do
    ofExcept (s.setReclaimToken token)
    modify ({ · with sessionToken := token })
  | none => do
    let link ← get
    ofExcept (stored (s.writeSessionToken listener.port link.sessionToken))

def adoptToken (listener : Listener) (reclaimToken : Option String) (fromPersist : Bool) : LinkM Unit := do
  let live ← liveToken s listener reclaimToken fromPersist
  let token ← ownToken s listener live
  useToken s listener token

def persistIdentity : Option String := if base = 0 then none else s.ownSessionIdentity

def persistedPort : LinkM (Option UInt16) :=
  match persistIdentity s base with
  | none => pure none
  | some _ => ofExcept (stored (s.readPersistedPort base))

/-- The listener that the persisted port or the scan gives, and whether it was the persisted port. -/
def bindFresh (reserved : List UInt16) (persisted : Option UInt16) : LinkM (Option Listener × Bool) := do
  match ← tryPersisted s host base reserved persisted with
  | some listener => return (some listener, true)
  | none => do
    let found ← scanPorts s host reserved (candidatePorts base)
    return (found, false)

def chooseListener (attached : Option (Listener × String)) (reserved : List UInt16) (persisted : Option UInt16) :
    LinkM (Option Listener × Bool) :=
  match attached with
  | some (listener, _) => pure (some listener, false)
  | none => bindFresh s host base reserved persisted

def recordPort (port : UInt16) : LinkM Unit :=
  match persistIdentity s base with
  | none => pure ()
  | some _ => ofExcept (stored (s.writePersistedPort base port))

def bindListener : LinkM Unit := do
  let (attached, reserved) ← beginBinding s host base
  let persisted ← persistedPort s base
  let (bound, fromPersist) ← chooseListener s host base attached reserved persisted
  match bound with
  | none => do
    let link ← get
    throw (.portBusy link.addr)
  | some listener => do
    let _ ← ofSocket listener.localAddr
    recordPort s base listener.port
    adoptToken s listener (attached.map Prod.snd) fromPersist
    modify ({ · with listener := some listener })

end ensure

def bindIfNeeded (s : Surroundings) : LinkM Unit := do
  let link ← get
  match link.listener with
  | some _ => pure ()
  | none => bindListener s (splitAddr link.addr).1 (splitAddr link.addr).2

def ensureConnected (s : Surroundings) : LinkM Unit := do
  if s.connected then return ()
  if ← ofExcept s.finishPreaccept then return ()
  if s.preacceptPending then throw .notConnected
  bindIfNeeded s
  ofExcept s.armPreaccept
  if ← ofExcept s.finishNewPreaccept then return ()
  throw .notConnected

end Emucap.Live.Tcp
