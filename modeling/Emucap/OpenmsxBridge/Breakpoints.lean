import Emucap.InputMovie
import Emucap.Lib.Json
import Emucap.Lib.Stateful
import Emucap.NumParse
import Emucap.OpenmsxBridge.Native
import Mathlib.Data.Finset.Image

/-!
# Breakpoints of the openMSX bridge

`openmsx_bridge/breakpoints.rs`: a public map of breakpoints beside the native set. A step of arming is undone when a
later one fails, else the debugger is given up. The guest may hit points before every command (`Turn`).
-/

namespace Emucap.OpenmsxBridge

open Emucap.Lib Emucap.NumParse

def maxBreakpoints : ℕ := 128

def maxSnapshots : ℕ := 16

def maxSnapshotBytes : ℕ := 16 * 1024

def registerNames : List String :=
  ["AF", "BC", "DE", "HL", "AF2", "BC2", "DE2", "HL2", "IX", "IY", "PC", "SP", "I", "R", "IM", "IFF"]

inductive MemoryType where
  | memory
  | ram
  | vram
  deriving DecidableEq

def MemoryType.code : MemoryType → Char
  | .memory => 'm'
  | .ram => 'r'
  | .vram => 'v'

def MemoryType.ofStr : List Char → Option MemoryType
  | ['m', 'e', 'm', 'o', 'r', 'y'] => some .memory
  | ['r', 'a', 'm'] => some .ram
  | ['v', 'r', 'a', 'm'] => some .vram
  | _ => none

/-- A range to capture on a hit; its `code` is that of the memory type. -/
structure SnapshotSpec where
  memoryType : MemoryType
  address : ℕ
  length : ℕ
  deriving DecidableEq

structure PublicBreakpoint where
  kind : Kind
  start : ℕ
  stop : ℕ
  nativeId : List Char
  snapshots : List SnapshotSpec
  deriving DecidableEq

def nativePoint (id : ℕ) (b : PublicBreakpoint) : NativePoint := ⟨b.nativeId, b.kind, b.start, b.stop, id⟩

/-! ## Errors -/

/-- `OpenMsxBridgeError::BadParams` and `BadState`. -/
inductive RequestError where
  /-- MSX supports at most {MAX_BREAKPOINTS} public breakpoints -/
  | tooManyBreakpoints
  /-- MSX breakpoints do not support {name} -/
  | unsupportedOption (name : String)
  /-- MSX breakpoints require pause_on_hit=true -/
  | pauseOnHit
  /-- message {name} is required -/
  | required (name : String)
  /-- message {name} must be a non-negative integer -/
  | notNatural (name : String)
  /-- message {name}: {error} -/
  | number (name : String) (error : NumError)
  /-- message {name} must be an integer or hexadecimal string -/
  | notNumber (name : String)
  /-- MSX breakpoint range must be an ordered 16-bit logical address range -/
  | range
  /-- MSX exec breakpoints require an exact address -/
  | execRange
  /-- MSX exec breakpoints use the Z80 logical CPU address space -/
  | execMemoryType
  /-- MSX read/write breakpoints require memory_type=memory -/
  | accessMemoryType
  /-- unsupported MSX breakpoint kind: {other}; supported: exec, read, write -/
  | unsupportedKind (kind : String)
  /-- MSX trigger identity requires non-overlapping ranges of the same kind -/
  | overlap
  /-- snapshot must be a list -/
  | snapshotList
  /-- snapshot accepts at most {MAX_SNAPSHOTS} ranges -/
  | tooManySnapshots
  /-- snapshot entries must be memory_type:address:length -/
  | snapshotEntry
  /-- invalid MSX snapshot range: {raw} -/
  | snapshotRange (raw : String)
  /-- unsupported MSX snapshot memory_type: {other} -/
  | snapshotMemoryType (name : List Char)
  /-- invalid snapshot address: {raw} -/
  | snapshotAddress (raw : String)
  /-- invalid snapshot length: {raw} -/
  | snapshotLength (raw : String)
  /-- message {memory_type} access out of range: {address:#x}+{length:#x} exceeds {size:#x} -/
  | accessRange (memoryType : MemoryType) (address length size : ℕ)
  /-- snapshot byte total overflow -/
  | snapshotTotal
  /-- snapshot byte total exceeds {MAX_SNAPSHOT_BYTES} -/
  | snapshotBytes
  /-- MSX breakpoint ID space is exhausted -/
  | idsExhausted
  /-- unknown MSX breakpoint id: {id} -/
  | unknownBreakpoint (id : ℕ)
  /-- message {operation} cannot start while breakpoint events are pending; drain them with poll_events first -/
  | eventsPending (operation : String)
  deriving DecidableEq

inductive ProtocolError where
  /-- openMSX returned invalid breakpoint inventory hex -/
  | inventoryHex
  /-- openMSX breakpoint inventory was not UTF-8 -/
  | inventoryUtf8
  /-- invalid native breakpoint inventory record: {line:?} -/
  | inventoryRecord (line : List Char)
  /-- invalid native breakpoint inventory ID: {native_id:?} -/
  | inventoryId (nativeId : List Char)
  /-- duplicate native breakpoint inventory record -/
  | inventoryDuplicate
  /-- openMSX returned invalid debugger queue hex -/
  | queueHex
  /-- openMSX debugger queue was not UTF-8 -/
  | queueUtf8
  /-- openMSX debugger queue has invalid dropped count -/
  | droppedCount
  /-- openMSX debugger hit sequence moved backwards -/
  | sequenceBackwards
  /-- openMSX debugger {label} was not an unsigned decimal integer: {raw:?} -/
  | eventNum (raw : List Char) (label : String)
  /-- debugger event has {} fields instead of 9 -/
  | fieldCount (count : ℕ)
  /-- debugger callback error was not valid hex -/
  | callbackHex
  /-- openMSX debugger callback failed: {message} -/
  | callbackFailed (message : List UInt8)
  /-- debugger hit sequence did not advance past {} -/
  | sequenceStuck (last : ℕ)
  /-- debugger event references unknown public breakpoint {id} -/
  | unknownId (id : ℕ)
  /-- debugger event has invalid kind token {other:?} -/
  | kindToken (token : List Char)
  /-- debugger event kind {kind} does not match breakpoint {} -/
  | kindMismatch (kind : Kind)
  /-- exec event unexpectedly contains access evidence -/
  | execAccess
  /-- debugger event address {address:#x} is outside breakpoint range -/
  | addressRange (address : ℕ)
  /-- debugger event has {} registers instead of {} -/
  | registerCount (count : ℕ)
  /-- debugger register {name} exceeds {max:#x}: {value:#x} -/
  | registerRange (name : String) (value : ℕ)
  /-- debugger event PC disagrees with its register snapshot -/
  | registerPc
  /-- debugger event returned {} snapshots instead of {} -/
  | snapshotCount (count : ℕ)
  /-- debugger snapshot metadata does not match request: {segment:?} -/
  | snapshotMetadata (segment : List Char)
  /-- debugger snapshot bytes are invalid hex -/
  | snapshotHex
  /-- debugger snapshot returned {} bytes instead of {} -/
  | snapshotSize (count : ℕ)
  /-- debugger write value exceeds one byte: {value:#x} -/
  | writeValue (value : ℕ)
  /-- read event contains a backend-unsupported access value -/
  | readValue
  deriving DecidableEq

mutual

inductive BridgeError where
  | request (e : RequestError)
  | protocol (e : ProtocolError)
  /-- the control channel refused a command -/
  | control (message : String)
  /-- native breakpoint inventory mismatch: expected {expected:?}, observed {actual:?} -/
  | inventoryMismatch (expected actual : Finset NativePoint)
  /-- the reason of `cleanup_failed_arm`, as an emulator error -/
  | notArmed (reason : BridgeError)
  /-- `fail_debugger`, or MSX debugger generation is terminating: {reason} -/
  | fatal (reason : FatalReason)

inductive FatalReason where
  /-- message {error}; failed to remove unarmed snapshot spec {id}: {cleanup} -/
  | unarmedSpec (error : BridgeError) (id : ℕ) (cleanup : BridgeError)
  /-- openMSX returned an unsafe native breakpoint ID: {native_id:?} -/
  | unsafeNativeId (nativeId : List Char)
  /-- message {reason}; failed to restore the prior native breakpoint set: {cleanup} -/
  | notRestored (reason cleanup : BridgeError)
  /-- native breakpoint set diverged after clearing {id}: {error} -/
  | diverged (id : ℕ) (error : BridgeError)
  /-- snapshot spec cleanup failed after clearing {id}: {error} -/
  | specCleanup (id : ℕ) (error : BridgeError)
  /-- MSX native breakpoint identity changed during {operation}: {error} -/
  | identityChanged (operation : String) (error : BridgeError)
  /-- openMSX debugger queue reported drops without a retained event -/
  | dropsWithoutEvent
  /-- openMSX debugger event validation failed: {error} -/
  | eventValidation (error : ProtocolError)
  /-- openMSX debugger sequence/drop mismatch -/
  | sequenceMismatch (before last retained dropped : ℕ)

end

/-! ## Events -/

structure SnapshotValue where
  memoryType : MemoryType
  address : ℕ
  length : ℕ
  bytes : List UInt8
  deriving DecidableEq

structure Event where
  breakpointId : ℕ
  nativeId : List Char
  kind : Kind
  address : ℕ
  pc : ℕ
  hitSeq : ℕ
  regs : List (String × ℕ)
  snapshot : List SnapshotValue
  value : Option ℕ
  launchId : Option String
  deriving DecidableEq

/-! ## The bridge and the emulator -/

structure Bridge where
  regionSizes : MemoryType → ℕ
  launchId : Option String
  breakpoints : List (ℕ × PublicBreakpoint)
  nextBreakpointId : ℕ
  debugEvents : List Event
  lastHitSeq : ℕ
  debuggerFatal : Option FatalReason

def Bridge.new (regionSizes : MemoryType → ℕ) (launchId : Option String) : Bridge :=
  ⟨regionSizes, launchId, [], 1, [], 0, none⟩

/-- What happens up to and with one command: the hits before it, and whether it takes effect. -/
structure Turn where
  hits : List (NativePoint × Native.Capture)
  outcome : Except String ℕ

/-- The bridge with the emulator; `turns` is what the emulator is going to do, and `history` are the hits so far, which
no program reads. -/
structure World where
  bridge : Bridge
  native : Native
  turns : ℕ → Turn
  history : List (NativePoint × Native.Capture)

def World.new (bridge : Bridge) (turns : ℕ → Turn) : World := ⟨bridge, Native.init, turns, []⟩

def World.hit (w : World) (h : NativePoint × Native.Capture) : World :=
  if h.1 ∈ w.native.points then { w with native := w.native.hit h.1 h.2, history := w.history ++ [h] } else w

def World.hits (w : World) (hits : List (NativePoint × Native.Capture)) : World := hits.foldl World.hit w

abbrev Bridged := EStateM BridgeError World

/-! ## Reading a request -/

def optionalNum (params : Json) (name : String) : Except RequestError (Option ℕ) :=
  match params.get name with
  | none | some .null => .ok none
  | some (.nat n) => (orError (.notNatural name) (Json.nat n).asU64).map some
  | some (.neg _) | some (.float _) => .error (.notNatural name)
  | some (.str raw) => ((parseNumStr raw.toList).mapError (.number name)).map some
  | some _ => .error (.notNumber name)

def requiredNum (params : Json) (name : String) : Except RequestError ℕ := do
  orError (.required name) (← optionalNum params name)

def breakpointOptions : List String := ["condition", "value", "value_mask", "value_len", "pc_min", "pc_max"]

def rejectBreakpointOptions (params : Json) : Except RequestError Unit :=
  breakpointOptions.forM fun name =>
    require ((params.get name).all (· = .null)) (.unsupportedOption name)

def validateRange (b : Bridge) (memoryType : MemoryType) (address length : ℕ) : Except RequestError Unit :=
  require (address + length < 2 ^ 64 ∧ address + length ≤ b.regionSizes memoryType)
    (.accessRange memoryType address length (b.regionSizes memoryType))

/-- One entry `memory_type:address:length` of a snapshot request, after `total` bytes. -/
def parseSnapshotSpec (b : Bridge) (total : ℕ) (entry : Json) : Except RequestError (SnapshotSpec × ℕ) := do
  let raw ← orError .snapshotEntry entry.asStr
  match raw.toList.splitOn ':' with
  | [name, address, length] => do
    let memoryType ← orError (.snapshotMemoryType name) (MemoryType.ofStr name)
    let address ← (parseNumStr address).mapError fun _ => .snapshotAddress raw
    let length ← (parseNumStr length).mapError fun _ => .snapshotLength raw
    require (length ≠ 0) (.snapshotLength raw)
    validateRange b memoryType address length
    let total ← orError .snapshotTotal (checkedAdd total length)
    require (total ≤ maxSnapshotBytes) .snapshotBytes
    return (⟨memoryType, address, length⟩, total)
  | _ => .error (.snapshotRange raw)

def parseSnapshotEntries (b : Bridge) : ℕ → List Json → Except RequestError (List SnapshotSpec)
  | _, [] => .ok []
  | total, entry :: entries => do
    let (spec, total) ← parseSnapshotSpec b total entry
    let specs ← parseSnapshotEntries b total entries
    return spec :: specs

def parseSnapshotSpecs (b : Bridge) : Option Json → Except RequestError (List SnapshotSpec)
  | none => .ok []
  | some value => do
    let entries ← orError .snapshotList value.asArray
    require (entries.length ≤ maxSnapshots) .tooManySnapshots
    parseSnapshotEntries b 0 entries

def readKind (params : Json) (kind : String) (start stop : ℕ) : Except RequestError Kind :=
  let memoryType := (params.get "memory_type").bind Json.asStr
  if kind = "exec" then do
    require (stop = start) .execRange
    require (memoryType.all fun value => value = "cpu" ∨ value = "memory") .execMemoryType
    return .exec
  else if kind = "read" ∨ kind = "write" then do
    require (memoryType.getD "memory" = "memory") .accessMemoryType
    return if kind = "read" then .read else .write
  else .error (.unsupportedKind kind)

structure ArmRequest where
  kind : Kind
  start : ℕ
  stop : ℕ
  snapshots : List SnapshotSpec
  nextId : ℕ

/-- `set_breakpoint` up to the first command. -/
def readArmRequest (b : Bridge) (params : Json) : Except RequestError ArmRequest := do
  require (b.breakpoints.length < maxBreakpoints) .tooManyBreakpoints
  rejectBreakpointOptions params
  require (((params.get "pause_on_hit").bind Json.asBool).getD true = true) .pauseOnHit
  let kind := ((params.get "kind").bind Json.asStr).getD "exec"
  let start ← requiredNum params "start"
  let stop := (← optionalNum params "end").getD start
  require (¬ (stop < start ∨ 0xffff < stop)) .range
  let kind ← readKind params kind start stop
  require (∀ entry ∈ b.breakpoints, ¬ (entry.2.kind = kind ∧ entry.2.start ≤ stop ∧ start ≤ entry.2.stop)) .overlap
  let snapshots ← parseSnapshotSpecs b (params.get "snapshot")
  let nextId ← orError .idsExhausted (checkedAdd b.nextBreakpointId 1)
  return ⟨kind, start, stop, snapshots, nextId⟩

/-! ## Reading what openMSX sends -/

def parseEventNum (raw : List Char) (label : String) : Except ProtocolError ℕ :=
  orError (.eventNum raw label) (InputMovie.parseU64 raw)

def validNativeId (kind : Kind) (value : List Char) : Bool :=
  match value with
  | c :: 'p' :: '#' :: suffix => c == (if kind = .exec then 'b' else 'w') && !suffix.isEmpty && suffix.all Char.isDigit
  | _ => false

def parseInventoryRecord (line : List Char) : Except ProtocolError NativePoint :=
  match line.splitOn '|' with
  | [nativeId, token, start, stop, publicId] => do
    let kind ← orError (.inventoryRecord line) (Kind.ofToken token)
    require (validNativeId kind nativeId) (.inventoryId nativeId)
    let start ← parseEventNum start "native start"
    let stop ← parseEventNum stop "native end"
    let publicId ← parseEventNum publicId "native public ID"
    return ⟨nativeId, kind, start, stop, publicId⟩
  | _ => .error (.inventoryRecord line)

def parseInventoryLines : Finset NativePoint → List (List Char) → Except ProtocolError (Finset NativePoint)
  | points, [] => .ok points
  | points, line :: rest => do
    let point ← parseInventoryRecord line
    require (point ∉ points) .inventoryDuplicate
    parseInventoryLines (insert point points) rest

def parseInventory (encoded : List Char) : Except ProtocolError (Finset NativePoint) := do
  let bytes ← orError .inventoryHex (decodeHex (trim encoded))
  let inventory ← orError .inventoryUtf8 (Lib.fromUtf8 bytes)
  parseInventoryLines ∅ ((lines inventory.toList).filter (· ≠ []))

def parseHitSnapshot (segment : List Char) (spec : SnapshotSpec) : Except ProtocolError SnapshotValue :=
  match segment.splitOn ',' with
  | [code, address, length, data] => do
    require (code = [spec.memoryType.code]) (.snapshotMetadata segment)
    let address ← parseEventNum address "snapshot address"
    require (address = spec.address) (.snapshotMetadata segment)
    let length ← parseEventNum length "snapshot length"
    require (length = spec.length) (.snapshotMetadata segment)
    let bytes ← orError .snapshotHex (decodeHex data)
    require (bytes.length = spec.length) (.snapshotSize bytes.length)
    return ⟨spec.memoryType, spec.address, spec.length, bytes⟩
  | _ => .error (.snapshotMetadata segment)

def parseHitSnapshots (raw : List Char) (expected : List SnapshotSpec) :
    Except ProtocolError (List SnapshotValue) := do
  let segments := if raw = [] then [] else raw.splitOn ';'
  require (segments.length = expected.length) (.snapshotCount segments.length)
  (segments.zip expected).mapM fun entry => parseHitSnapshot entry.1 entry.2

def registerMax (name : String) : ℕ := if name ∈ ["I", "R", "IM", "IFF"] then 0xff else 0xffff

def parseRegister (name : String) (raw : List Char) : Except ProtocolError (String × ℕ) := do
  let value ← parseEventNum raw name
  require (value ≤ registerMax name) (.registerRange name value)
  return (name, value)

def parseHitRecord (b : Bridge) (record : List Char) : Except ProtocolError Event :=
  match record.splitOn '|' with
  | [seq, id, token, pc, access, accessValue, registers, snapshots, failure] => do
    if failure ≠ [] then
      let message ← orError .callbackHex (decodeHex failure)
      .error (.callbackFailed message)
    let hitSeq ← parseEventNum seq "hit sequence"
    require (b.lastHitSeq < hitSeq) (.sequenceStuck b.lastHitSeq)
    let id ← parseEventNum id "public breakpoint ID"
    let breakpoint ← orError (.unknownId id) (OrdMap.find? id b.breakpoints)
    let kind ← orError (.kindToken token) (Kind.ofToken token)
    require (breakpoint.kind = kind) (.kindMismatch kind)
    let pc ← parseEventNum pc "PC"
    let address ← if kind = .exec then do
        require (access = ['-'] ∧ accessValue = ['-']) .execAccess
        pure pc
      else parseEventNum access "access address"
    require (breakpoint.start ≤ address ∧ address ≤ breakpoint.stop) (.addressRange address)
    let values := registers.splitOn ','
    require (values.length = registerNames.length) (.registerCount values.length)
    let regs ← (registerNames.zip values).mapM fun entry => parseRegister entry.1 entry.2
    require (OrdMap.find? "PC" regs = some pc) .registerPc
    let snapshot ← parseHitSnapshots snapshots breakpoint.snapshots
    let value ← if kind = .write then do
        let value ← parseEventNum accessValue "write value"
        require (value ≤ 0xff) (.writeValue value)
        pure (some value)
      else do
        require (¬ (kind = .read ∧ accessValue ≠ ['-'])) .readValue
        pure none
    return ⟨id, breakpoint.nativeId, kind, address, pc, hitSeq, regs, snapshot, value, b.launchId⟩
  | fields => .error (.fieldCount fields.length)

/-! ## Methods -/

inductive Reply where
  | armed (id : ℕ) (nativeId : List Char)
  | cleared (id : ℕ)
  | clearedAll (ids : List ℕ)
  | polled (events : List Event) (dropped : ℕ)
  /-- `status`, with its `queued_events` -/
  | status (queuedEvents : ℕ)
  | done

def require' (c : Prop) [Decidable c] (e : BridgeError) : Bridged Unit := if c then pure () else throw e

def ofExcept {ε α : Type} (f : ε → BridgeError) : Except ε α → Bridged α
  | .ok a => pure a
  | .error e => throw (f e)

def failDebugger {α : Type} (reason : FatalReason) : Bridged α := do
  modify fun w => { w with bridge := { w.bridge with debuggerFatal := some reason } }
  throw (.fatal reason)

def requireDebuggerHealthy : Bridged Unit := do
  match (← get).bridge.debuggerFatal with
  | some reason => throw (.fatal reason)
  | none => pure ()

section control
variable (choose : Native.Chooser)

def command (c : Native.Command) : Bridged (List Char) := fun w =>
  let turn := w.turns 0
  let w := { w.hits turn.hits with turns := fun i => w.turns (i + 1) }
  match turn.outcome with
  | .error message => .error (.control message) w
  | .ok count => .ok (w.native.exec choose count c).1 { w with native := (w.native.exec choose count c).2 }

def specValue (spec : SnapshotSpec) : SpecValue := ⟨spec.memoryType.code, spec.address, spec.length⟩

def installSnapshotSpec (id : ℕ) (snapshots : List SnapshotSpec) : Bridged Unit := do
  let _ ← command choose (.setSpec id (snapshots.map specValue))

def uninstallSnapshotSpec (id : ℕ) : Bridged Unit := do
  let _ ← command choose (.unsetSpec id)

def removeNativeBreakpoint (kind : Kind) (nativeId : List Char) : Bridged Unit := do
  let _ ← command choose (.remove kind.watch nativeId)

def expectedPoints (b : Bridge) (extra : Option NativePoint) (excluded : Option ℕ) : Finset NativePoint :=
  (((b.breakpoints.filter fun entry => excluded ≠ some entry.1).map fun entry => nativePoint entry.1 entry.2) ++
    extra.toList).toFinset

def verifyNativeBreakpointsWith (extra : Option NativePoint) (excluded : Option ℕ) : Bridged Unit := do
  let reply ← command choose .inventory
  let actual ← ofExcept .protocol (parseInventory reply)
  let expected := expectedPoints (← get).bridge extra excluded
  require' (actual = expected) (.inventoryMismatch expected actual)

def cleanupFailedArm (id : ℕ) (kind : Kind) (nativeId : List Char) (reason : BridgeError) : Bridged Reply := do
  let cleanup ← attempt do
    removeNativeBreakpoint choose kind nativeId
    uninstallSnapshotSpec choose id
    verifyNativeBreakpointsWith choose none none
  match cleanup with
  | .ok () => throw (.notArmed reason)
  | .error cleanup => failDebugger (.notRestored reason cleanup)

def setBreakpoint (params : Json) : Bridged Reply := do
  requireDebuggerHealthy
  let r ← ofExcept .request (readArmRequest (← get).bridge params)
  let id := (← get).bridge.nextBreakpointId
  installSnapshotSpec choose id r.snapshots
  match ← attempt (command choose (.create r.kind r.start r.stop id)) with
  | .error error =>
    match ← attempt (uninstallSnapshotSpec choose id) with
    | .ok () => throw error
    | .error cleanup => failDebugger (.unarmedSpec error id cleanup)
  | .ok nativeId =>
    if validNativeId r.kind nativeId = false then
      let _ ← attempt (uninstallSnapshotSpec choose id)
      failDebugger (.unsafeNativeId nativeId)
    else
      let temporary : PublicBreakpoint := ⟨r.kind, r.start, r.stop, nativeId, r.snapshots⟩
      match ← attempt (verifyNativeBreakpointsWith choose (some (nativePoint id temporary)) none) with
      | .error error => cleanupFailedArm choose id r.kind nativeId error
      | .ok () =>
        modify fun w => { w with bridge := { w.bridge with
          breakpoints := OrdMap.insert id temporary w.bridge.breakpoints
          nextBreakpointId := r.nextId } }
        return .armed id nativeId

def clearId (id : ℕ) : Bridged Reply := do
  let breakpoint ← ofExcept .request
    (orError (.unknownBreakpoint id) (OrdMap.find? id (← get).bridge.breakpoints))
  removeNativeBreakpoint choose breakpoint.kind breakpoint.nativeId
  match ← attempt (verifyNativeBreakpointsWith choose none (some id)) with
  | .error error => failDebugger (.diverged id error)
  | .ok () =>
    match ← attempt (uninstallSnapshotSpec choose id) with
    | .error error => failDebugger (.specCleanup id error)
    | .ok () =>
      modify fun w => { w with bridge := { w.bridge with breakpoints := OrdMap.erase id w.bridge.breakpoints } }
      return .cleared id

def clearBreakpoint (params : Json) : Bridged Reply := do
  requireDebuggerHealthy
  let id ← ofExcept .request (requiredNum params "id")
  clearId choose id

def clearEach : List ℕ → Bridged Unit
  | [] => pure ()
  | id :: ids => do
    let _ ← clearBreakpoint choose (.obj [("id", .nat id)])
    clearEach ids

def clearAllBreakpoints : Bridged Reply := do
  requireDebuggerHealthy
  let ids := (← get).bridge.breakpoints.map Prod.fst
  clearEach choose ids
  return .clearedAll ids

def reconcileBreakpoints (operation : String) : Bridged Reply := do
  requireDebuggerHealthy
  match ← attempt (verifyNativeBreakpointsWith choose none none) with
  | .error error => failDebugger (.identityChanged operation error)
  | .ok () => return .done

def drainDebugEvents : Bridged ℕ := do
  let encoded ← command choose .drain
  let bytes ← ofExcept .protocol (orError .queueHex (decodeHex (trim encoded)))
  let payload ← ofExcept .protocol (orError .queueUtf8 (Lib.fromUtf8 bytes))
  let pieces := payload.toList.splitOn '\n'
  let dropped ← ofExcept .protocol (orError .droppedCount (InputMovie.parseU64 (pieces.headD [])))
  let records := pieces.tail.filter (· ≠ [])
  if records = [] ∧ dropped ≠ 0 then
    failDebugger .dropsWithoutEvent
  else
    let b := (← get).bridge
    match records.mapM (parseHitRecord b) with
    | .error error => failDebugger (.eventValidation error)
    | .ok parsed =>
      match parsed.getLast? with
      | none => pure ()
      | some last =>
        require' (b.lastHitSeq ≤ last.hitSeq) (.protocol .sequenceBackwards)
        if last.hitSeq - b.lastHitSeq ≠ parsed.length + dropped then
          failDebugger (.sequenceMismatch b.lastHitSeq last.hitSeq parsed.length dropped)
        else
          modify fun w => { w with bridge := { w.bridge with lastHitSeq := last.hitSeq } }
      modify fun w => { w with bridge := { w.bridge with debugEvents := w.bridge.debugEvents ++ parsed } }
      return dropped

def pollEvents (params : Json) : Bridged Reply := do
  requireDebuggerHealthy
  let dropped ← drainDebugEvents choose
  let filter ← ofExcept .request (optionalNum params "breakpoint_id")
  let wanted := fun event : Event => decide (filter = none ∨ filter = some event.breakpointId)
  let events := (← get).bridge.debugEvents
  modify fun w => { w with bridge := { w.bridge with debugEvents := events.filter fun event => !wanted event } }
  return .polled (events.filter wanted) dropped

/-- `status`, as far as the debugger is concerned: it drains the queue and shows how many events wait. -/
def status : Bridged Reply := do
  let _ ← drainDebugEvents choose
  return .status (← get).bridge.debugEvents.length

def prepareTemporalRequest (operation : String) : Bridged Reply := do
  requireDebuggerHealthy
  let dropped ← drainDebugEvents choose
  require' (¬ (dropped ≠ 0 ∨ (← get).bridge.debugEvents ≠ [])) (.request (.eventsPending operation))
  return .done

end control

end Emucap.OpenmsxBridge
