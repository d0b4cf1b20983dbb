import Emucap.Lib.Stateful
import Emucap.Np2kaiAdapter.Parameters

/-!
# Breakpoints and events of the NP2kai adapter

`np2kai_adapter/debug.rs`: the host numbers its breakpoints and takes the core's hits into a bounded queue of events.
The core may refuse every call, which then changes nothing (`Answers`).
-/

namespace Emucap.Np2kaiAdapter

open Emucap.Lib

/-! ## The core -/

def bpExec : ℕ := 0
def bpRead : ℕ := 1
def bpWrite : ℕ := 2
def bpAccess : ℕ := 3
def bpRegister : ℕ := 4
def bpReset : ℕ := 5

structure NativeBreakpoint where
  id : ℕ
  kind : ℕ
  start : ℕ := 0
  stop : ℕ := 0
  pauseOnHit : Bool := false
  pcMin : Option ℕ := none
  pcMax : Option ℕ := none
  value : ValueFilter := ⟨false, 0, 0, 0⟩
  registerIndex : ℕ := 0
  registerMin : ℕ := 0
  registerMax : ℕ := 0
  deriving DecidableEq

structure NativeRegisters where
  eax : ℕ
  ecx : ℕ
  edx : ℕ
  ebx : ℕ
  esp : ℕ
  ebp : ℕ
  esi : ℕ
  edi : ℕ
  eip : ℕ
  eflags : ℕ
  cs : ℕ
  ss : ℕ
  ds : ℕ
  es : ℕ
  fs : ℕ
  gs : ℕ
  csBase : ℕ
  cr0 : ℕ
  deriving DecidableEq

structure NativeEvent where
  sequence : ℕ
  breakpointId : ℕ
  kind : ℕ
  address : ℕ
  size : ℕ
  value : ℕ
  paused : ℕ
  registers : NativeRegisters
  deriving DecidableEq

/-- The installed breakpoints, the ids that it was asked to install, oldest first, and the hits to be taken. -/
structure Core where
  installed : List NativeBreakpoint
  asked : List ℕ
  hits : List NativeEvent
  deriving DecidableEq

/-- How the core answers while one request is handled: the count of frames before and after its start, whether it takes
a breakpoint and whether it clears one, how many hits it hands out before it refuses, the bytes of each read in turn,
and how many hits it has dropped itself. -/
structure Answers where
  callbacks : Np2kaiResult ℕ × Np2kaiResult ℕ
  sets : Bool
  clears : Bool
  polls : ℕ
  reads : ℕ → Option (List UInt8)
  dropped : ℕ

/-! ## The host -/

def maxPendingEvents : ℕ := 256

structure DebugBreakpoint where
  kind : String
  start : Option ℕ
  stop : Option ℕ
  memoryType : Option String
  pauseOnHit : Bool
  snapshots : List SnapshotSpec
  register : Option String
  min : Option ℕ
  max : Option ℕ
  deriving DecidableEq

structure Host where
  initialized : Bool
  breakpoints : List (ℕ × DebugBreakpoint)
  pendingEvents : List Json
  droppedPendingEvents : ℕ
  nextBreakpointId : ℕ
  breakOnResetId : Option ℕ

/-- The host and the core, and the answers that are left for the request. -/
structure Machine where
  host : Host
  core : Core
  answers : Answers

abbrev Np2kai := EStateM Np2kaiError Machine

def Machine.withHost (m : Machine) (host : Host) : Machine := { m with host := host }

def Machine.withCore (m : Machine) (core : Core) : Machine := { m with core := core }

def modifyHost (f : Host → Host) : Np2kai Unit := modify fun m => m.withHost (f m.host)

def ensureInitialized : Np2kai Unit := do
  let m ← get
  if m.host.initialized then pure ()
  else do
    let before ← fromExcept m.answers.callbacks.1
    let after ← fromExcept m.answers.callbacks.2
    demand (after = before) (.core "NP2kai initialization unexpectedly emitted a video frame")
    modifyHost fun host => { host with initialized := true }

/-! ## Calls to the core -/

def debugSetBreakpoint (breakpoint : NativeBreakpoint) : Np2kai Bool := do
  let m ← get
  let asked := m.core.asked ++ [breakpoint.id]
  if m.answers.sets then do
    set (m.withCore { m.core with asked := asked, installed := m.core.installed ++ [breakpoint] })
    return true
  else do
    set (m.withCore { m.core with asked := asked })
    return false

def debugClearBreakpoint (id : ℕ) : Np2kai Bool := do
  let m ← get
  if m.answers.clears ∧ ∃ b ∈ m.core.installed, b.id = id then do
    set (m.withCore { m.core with installed := m.core.installed.filter fun b => b.id ≠ id })
    return true
  else return false

def debugClearAllBreakpoints : Np2kai Unit := modify fun m => m.withCore { m.core with installed := [] }

/-- `debug_poll_event`: the next hit, which leaves the queue of the core. -/
def debugPollEvent : Np2kai (Option NativeEvent) := do
  let m ← get
  match m.answers.polls, m.core.hits with
  | polls + 1, hit :: hits => do
    set { m with core := { m.core with hits := hits }, answers := { m.answers with polls := polls } }
    return some hit
  | _, _ => return none

def debugReadMemory : Np2kai (Option (List UInt8)) := do
  let m ← get
  set { m with answers := { m.answers with reads := fun n => m.answers.reads (n + 1) } }
  return m.answers.reads 0

def readAbsolute (address length : ℕ) : Np2kai (List UInt8) := do
  demand (0 < length ∧ length ≤ memorySpace ∧ address + length ≤ memorySpace)
    (.badParams "physical memory access is out of range")
  orThrow (.core "NP2kai memory read failed") (← debugReadMemory)

def allocateBreakpointId : Np2kai ℕ := do
  let id := (← get).host.nextBreakpointId
  demand (id + 1 < 2 ^ 64) (.core "breakpoint id exhausted")
  modifyHost fun host => { host with nextBreakpointId := id + 1 }
  return id

def installBreakpoint (breakpoint : NativeBreakpoint) : Np2kai Unit := do
  demand ((← debugSetBreakpoint breakpoint) = true)
    (.core "NP2kai breakpoint table is full or rejected the request")

/-! ## Events -/

def registersValue (regs : NativeRegisters) : Json :=
  .obj [("cpu.cr0", .nat regs.cr0), ("cpu.cs", .nat regs.cs), ("cpu.cs_base", .nat regs.csBase),
    ("cpu.ds", .nat regs.ds), ("cpu.eax", .nat regs.eax), ("cpu.ebp", .nat regs.ebp), ("cpu.ebx", .nat regs.ebx),
    ("cpu.ecx", .nat regs.ecx), ("cpu.edi", .nat regs.edi), ("cpu.edx", .nat regs.edx),
    ("cpu.eflags", .nat regs.eflags), ("cpu.eip", .nat regs.eip), ("cpu.es", .nat regs.es),
    ("cpu.esi", .nat regs.esi), ("cpu.esp", .nat regs.esp), ("cpu.fs", .nat regs.fs), ("cpu.gs", .nat regs.gs),
    ("cpu.offset_pc", .nat regs.eip), ("cpu.pc", .nat ((regs.csBase + regs.eip) % 2 ^ 32)), ("cpu.ss", .nat regs.ss)]

def nativeKindName (kind : ℕ) : String :=
  if kind = bpExec then "exec" else if kind = bpRead then "read" else if kind = bpWrite then "write"
  else if kind = bpAccess then "access" else if kind = bpRegister then "reg" else if kind = bpReset then "reset"
  else "unknown"

def authoritativeEventValue (kind value : ℕ) : Option ℕ :=
  if kind = bpWrite ∨ kind = bpRegister then some value else none

def eventValue (native : NativeEvent) (snapshot : Option (List Json)) : Json :=
  .obj ([("address", .nat native.address), ("breakpoint_id", .nat native.breakpointId),
      ("id", .nat native.breakpointId), ("kind", .str (nativeKindName native.kind)),
      ("paused", .bool (native.paused ≠ 0)), ("regs", registersValue native.registers),
      ("sequence", .nat native.sequence), ("size", .nat native.size)] ++
    (snapshot.map fun items => ("snapshot", .arr items)).toList ++
    [("type", .str (if native.kind = bpReset then "reset" else "breakpoint_hit"))] ++
    ((authoritativeEventValue native.kind native.value).map fun value => ("value", .nat value)).toList)

def captureSnapshot (spec : SnapshotSpec) : Np2kai Json := do
  let region ← orThrow (.core "validated snapshot region") (memoryRegion spec.memoryType)
  let bytes ← readAbsolute (region.base + spec.address) spec.length
  return .obj [("address", .nat spec.address), ("hex", .str (String.ofList (encodeHex bytes))),
    ("length", .nat spec.length), ("memory_type", .str spec.memoryType)]

def captureSnapshots : List SnapshotSpec → Np2kai (List Json)
  | [] => pure []
  | spec :: specs => do
    let value ← captureSnapshot spec
    return value :: (← captureSnapshots specs)

def saturatingAdd (a b : ℕ) : ℕ := min (a + b) (2 ^ 64 - 1)

/-- An event behind the pending ones: a full queue drops its oldest event. -/
def enqueuePendingEvent (event : Json) (host : Host) : Host :=
  if maxPendingEvents ≤ host.pendingEvents.length then
    { host with
      pendingEvents := host.pendingEvents.tail ++ [event],
      droppedPendingEvents := saturatingAdd host.droppedPendingEvents 1 }
  else { host with pendingEvents := host.pendingEvents ++ [event] }

def snapshotsOf (breakpoints : List (ℕ × DebugBreakpoint)) (native : NativeEvent) : List SnapshotSpec :=
  ((OrdMap.find? native.breakpointId breakpoints).map DebugBreakpoint.snapshots).getD []

def recordHit (native : NativeEvent) : Np2kai Unit := do
  let specs := snapshotsOf (← get).host.breakpoints native
  if specs = [] then modifyHost (enqueuePendingEvent (eventValue native none))
  else do
    let snapshot ← captureSnapshots specs
    modifyHost (enqueuePendingEvent (eventValue native (some snapshot)))

def drainHits : ℕ → Np2kai Unit
  | 0 => pure ()
  | rounds + 1 => do
    match ← debugPollEvent with
    | none => pure ()
    | some native => do
      recordHit native
      drainHits rounds

def drainNativeEvents : Np2kai Unit := do
  drainHits ((← get).core.hits.length + 1)

/-! ## Requests -/

def nativeKind : String → Np2kaiResult ℕ
  | "exec" => .ok bpExec
  | "read" => .ok bpRead
  | "write" => .ok bpWrite
  | "access" => .ok bpAccess
  | _ => .error (.badParams "NP2kai PC-98 supports exec/read/write/access breakpoints")

/-- What a request for a breakpoint asks for: the breakpoint of the core without its id, and that of the host. -/
def breakpointRequest (params : Json) : Np2kaiResult ((ℕ → NativeBreakpoint) × DebugBreakpoint) := do
  let kind := textOr params "kind" "exec"
  let native ← nativeKind kind
  let region ← requestedRegion params
  let start ← requiredNum params "start"
  let stop := max ((← optionalNum params "end").getD start) start
  require (stop < region.size) (.badParams
    (region.name ++ " breakpoint range exceeds region size " ++ hexText region.size))
  let pauseOnHit := boolOr params "pause_on_hit" true
  let snapshots ← parseSnapshots (params.get "snapshot")
  require (pauseOnHit = true ∨ snapshots = []) (.badParams
    ("NP2kai snapshots require pause_on_hit=true; hit registers describe the access boundary and snapshots describe " ++
      "the resulting frozen boundary"))
  let (pcMin, pcMax) ← breakpointPcRange params
  let value ← breakpointValueFilter params kind
  return (fun id => { id, kind := native, start := region.base + start, stop := region.base + stop, pauseOnHit, pcMin,
                      pcMax, value },
    { kind, start := some start, stop := some stop, memoryType := some region.name, pauseOnHit, snapshots,
      register := none, min := none, max := none })

def addBreakpoint (native : ℕ → NativeBreakpoint) (breakpoint : DebugBreakpoint) : Np2kai Json := do
  let id ← allocateBreakpointId
  installBreakpoint (native id)
  modifyHost fun host => { host with breakpoints := OrdMap.insert id breakpoint host.breakpoints }
  return .obj [("id", .nat id)]

def setBreakpoint (params : Json) : Np2kai Json := do
  ensureInitialized
  let (native, breakpoint) ← fromExcept (breakpointRequest params)
  addBreakpoint native breakpoint

def registerNames : List (List String × String × ℕ) :=
  [(["eax", "ax"], "eax", 0), (["ecx", "cx"], "ecx", 1), (["edx", "dx"], "edx", 2), (["ebx", "bx"], "ebx", 3),
    (["esp", "sp"], "esp", 4), (["ebp", "bp"], "ebp", 5), (["esi", "si"], "esi", 6), (["edi", "di"], "edi", 7),
    (["eip", "ip", "offset_pc"], "eip", 8), (["eflags", "flags"], "eflags", 9), (["cs"], "cs", 10), (["ss"], "ss", 11),
    (["ds"], "ds", 12), (["es"], "es", 13), (["fs"], "fs", 14), (["gs"], "gs", 15)]

def normalizeRegister (raw : String) : Np2kaiResult (String × ℕ) := do
  let lower := (trim raw.toList).map Char.toLower
  let name := String.ofList (("cpu.".toList.isPrefixOf? lower).getD lower)
  orError (.badParams ("unsupported PC-98 register: " ++ raw))
    ((registerNames.find? fun entry => name ∈ entry.1).map Prod.snd)

def registerRequest (params : Json) : Np2kaiResult ((ℕ → NativeBreakpoint) × DebugBreakpoint) := do
  let (register, index) ← normalizeRegister (textOr params "register" "sp")
  let low := (← optionalNum params "min").getD 0
  let high := (← optionalNum params "max").getD (2 ^ 32 - 1)
  require (low ≤ high ∧ high < 2 ^ 32) (.badParams "register range must satisfy 0 <= min <= max <= 0xffffffff")
  let pauseOnHit := boolOr params "pause_on_hit" true
  return (fun id => { id, kind := bpRegister, pauseOnHit, registerIndex := index, registerMin := low,
                      registerMax := high },
    { kind := "reg", start := none, stop := none, memoryType := none, pauseOnHit, snapshots := [],
      register := some register, min := some low, max := some high })

def watchRegister (params : Json) : Np2kai Json := do
  ensureInitialized
  let (native, breakpoint) ← fromExcept (registerRequest params)
  addBreakpoint native breakpoint

def clearBreakpoint (params : Json) : Np2kai Json := do
  let id ← fromExcept (requiredNum params "id")
  demand ((OrdMap.find? id (← get).host.breakpoints).isSome = true)
    (.badParams ("unknown breakpoint id: " ++ toString id))
  drainNativeEvents
  demand ((← debugClearBreakpoint id) = true) (.core ("NP2kai failed to clear breakpoint " ++ toString id))
  modifyHost fun host => { host with breakpoints := OrdMap.erase id host.breakpoints }
  return .obj [("cleared", .nat id)]

def clearAllBreakpoints : Np2kai Json := do
  drainNativeEvents
  let cleared := (← get).host.breakpoints.map Prod.fst
  debugClearAllBreakpoints
  modifyHost fun host => { host with breakpoints := [], breakOnResetId := none }
  return .obj [("cleared", .arr (cleared.map .nat))]

def passes (filter : Option ℕ) (event : Json) : Bool :=
  filter.all fun id => (event.get "breakpoint_id").bind Json.asU64 = some id

/-- `take_pending_events`: the events that the filter lets through; the others stay. -/
def takePendingEvents (filter : Option ℕ) : Np2kai (List Json) := do
  let events := (← get).host.pendingEvents
  modifyHost fun host => { host with pendingEvents := events.filter fun event => !passes filter event }
  return events.filter (passes filter)

def takeCombinedEventDrops : Np2kai ℕ := do
  let m ← get
  modifyHost fun host => { host with droppedPendingEvents := 0 }
  return saturatingAdd m.host.droppedPendingEvents m.answers.dropped

def pollEvents (params : Json) : Np2kai Json := do
  let filter ← fromExcept (optionalNum params "breakpoint_id")
  drainNativeEvents
  let events ← takePendingEvents filter
  let dropped ← takeCombinedEventDrops
  return .obj [("dropped", .nat dropped), ("events", .arr events),
    ("pending", .nat (← get).host.pendingEvents.length)]

/-- The breakpoint on resets is forgotten before the core is asked to clear it. -/
def clearResetBreakpoint : Np2kai Unit := do
  match (← get).host.breakOnResetId with
  | none => pure ()
  | some id => do
    modifyHost fun host => { host with breakOnResetId := none }
    demand ((← debugClearBreakpoint id) = true) (.core ("NP2kai failed to clear reset breakpoint " ++ toString id))

def installResetBreakpoint : Np2kai Unit := do
  let id ← allocateBreakpointId
  installBreakpoint { id, kind := bpReset, pauseOnHit := true }
  modifyHost fun host => { host with breakOnResetId := some id }

def breakOnReset (params : Json) : Np2kai Json := do
  ensureInitialized
  let enabled := boolOr params "enabled" false
  clearResetBreakpoint
  if enabled then installResetBreakpoint else pure ()
  return .obj [("enabled", .bool enabled), ("mode", .str "machine_reset_notifier"), ("system", .str "pc98")]

end Emucap.Np2kaiAdapter
