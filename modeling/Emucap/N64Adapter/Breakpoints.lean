import Emucap.Lib.Json
import Emucap.Lib.Stateful
import Emucap.NumParse

/-!
# Breakpoints of the N64 adapter

`n64_adapter_debug.rs`: every public breakpoint has a slot in the array of the core, and the host keeps a copy of its
number. The core appends a breakpoint that it takes, shifts the later ones down when it removes one, and looks a range
up from the first slot on. Whether it takes a breakpoint is not known.
-/

namespace Emucap.N64Adapter

open Emucap.Lib
open Emucap.NumParse (fromStrRadix)

inductive N64Error where
  | badParams (message : String)
  | badState (message : String)
  deriving DecidableEq

def N64Error.text : N64Error → String
  | .badParams message => message
  | .badState message => message

/-! ## Parameters -/

/-- A text in decimal, or in hexadecimal after `0x` or `$`. -/
def parseNumText (raw : String) : Option ℕ :=
  match trim raw.toList with
  | '0' :: 'x' :: hex => fromStrRadix hex 16
  | '$' :: hex => fromStrRadix hex 16
  | text => fromStrRadix text 10

def parseNum : Json → Option ℕ
  | .nat n => (Json.nat n).asU64
  | .str value => parseNumText value
  | _ => none

def requiredNum (params : Json) (key : String) : Except N64Error ℕ :=
  orError (.badParams ("missing or invalid param: " ++ key)) ((params.get key).bind parseNum)

def optionalNum (params : Json) (key : String) : Except N64Error (Option ℕ) :=
  match params.get key with
  | some value => (orError (.badParams ("invalid numeric param: " ++ key)) (parseNum value)).map some
  | none => .ok none

/-! ## Specifications -/

def rdramSize : ℕ := 8 * 1024 * 1024

def maxBreakpoints : ℕ := 128

def maxSnapshots : ℕ := 16

def maxSnapshotBytes : ℕ := 0x4000

def bkpEnabled : ℕ := 0x01

inductive Kind where
  | exec
  | read
  | write
  deriving DecidableEq

/-- `BKP_EXEC`, `BKP_READ` and `BKP_WRITE`. -/
def Kind.flag : Kind → ℕ
  | .exec => 0x08
  | .read => 0x02
  | .write => 0x04

structure NativeBreakpoint where
  address : ℕ
  endaddr : ℕ
  flags : ℕ
  deriving DecidableEq

structure SnapshotSpec where
  offset : ℕ
  length : ℕ
  deriving DecidableEq

structure BreakpointSpec where
  kind : Kind
  start : ℕ
  stop : ℕ
  native : NativeBreakpoint
  snapshots : List SnapshotSpec
  deriving DecidableEq

def snapshotSpec (total : ℕ) (entry : Json) : Except N64Error (SnapshotSpec × ℕ) := do
  let raw ← orError (.badParams "snapshot entries must be memory_type:address:length") entry.asStr
  match raw.toList.splitOn ':' with
  | [memory, address, length] => do
    require (memory = "rdram".toList) (.badParams ("invalid N64 snapshot range: " ++ raw))
    let offset ← orError (.badParams ("invalid snapshot address: " ++ raw)) (parseNumText (String.ofList address))
    let length ← orError (.badParams ("invalid snapshot length: " ++ raw)) (parseNumText (String.ofList length))
    require (0 < length) (.badParams ("invalid snapshot length: " ++ raw))
    require (offset + length < 2 ^ 64 ∧ offset + length ≤ rdramSize)
      (.badParams ("N64 snapshot crosses the RDRAM boundary: " ++ raw))
    let total ← orError (.badParams "snapshot byte total overflow") (checkedAdd total length)
    require (total ≤ maxSnapshotBytes) (.badParams "snapshot byte total exceeds 0x4000")
    return (⟨offset, length⟩, total)
  | _ => .error (.badParams ("invalid N64 snapshot range: " ++ raw))

def snapshotEntries : ℕ → List Json → Except N64Error (List SnapshotSpec)
  | _, [] => .ok []
  | total, entry :: entries => do
    let (spec, total) ← snapshotSpec total entry
    return spec :: (← snapshotEntries total entries)

def snapshotSpecs : Option Json → Except N64Error (List SnapshotSpec)
  | none => .ok []
  | some value => do
    let entries ← orError (.badParams "snapshot must be a list") value.asArray
    require (entries.length ≤ maxSnapshots) (.badParams "snapshot accepts at most 16 ranges")
    snapshotEntries 0 entries

def unsupportedOptions : List String := ["condition", "value", "value_mask", "value_len", "pc_min", "pc_max"]

def textOr (params : Json) (key default : String) : String := ((params.get key).bind Json.asStr).getD default

/-- The kind of a request, and the addresses that the core watches for it. -/
def nativeRange (params : Json) (start stop : ℕ) : Except N64Error (Kind × ℕ × ℕ) :=
  let memory := textOr params "memory_type"
  match textOr params "kind" "exec" with
  | "exec" => do
    require (stop = start) (.badParams "N64 exec breakpoints require an exact address")
    require (memory "cpu" = "cpu") (.badParams "N64 exec breakpoints use an absolute R4300 address")
    require (start < 2 ^ 32) (.badParams "N64 exec address exceeds u32")
    return (.exec, start, start)
  | "read" => do
    checkRdram memory
    return (.read, start, stop)
  | "write" => do
    checkRdram memory
    return (.write, start, stop)
  | other => .error (.badParams ("unsupported N64 breakpoint kind: " ++ other))
where
  checkRdram (memory : String → String) : Except N64Error Unit := do
    require (memory "rdram" = "rdram")
      (.badParams "N64 read/write breakpoints currently support memory_type=rdram only")
    require (stop < rdramSize) (.badParams "N64 RDRAM breakpoint exceeds 0x800000")

def breakpointSpec (params : Json) : Except N64Error BreakpointSpec := do
  unsupportedOptions.forM fun key =>
    require (params.get key).isNone (.badParams ("N64 breakpoint option " ++ key ++ " is not supported"))
  require ((params.get "pause_on_hit").bind Json.asBool ≠ some false)
    (.badParams "N64 breakpoints require pause_on_hit=true")
  let start ← requiredNum params "start"
  let stop := (← optionalNum params "end").getD start
  require (start ≤ stop) (.badParams "breakpoint end is below start")
  let (kind, first, last) ← nativeRange params start stop
  let snapshots ← snapshotSpecs (params.get "snapshot")
  return ⟨kind, start, stop, ⟨first, last, bkpEnabled ||| kind.flag⟩, snapshots⟩

def rangesOverlap (left right : BreakpointSpec) : Prop :=
  left.kind = right.kind ∧ left.native.address ≤ right.native.endaddr ∧ right.native.address ≤ left.native.endaddr

instance (left right : BreakpointSpec) : Decidable (rangesOverlap left right) := by
  unfold rangesOverlap
  infer_instance

def slotAfterClear (slot removed : ℕ) : Option ℕ :=
  if slot = removed then none else if removed < slot then some (slot - 1) else some slot

def triggerMatches (spec : BreakpointSpec) (flags accessed pc : ℕ) : Prop :=
  flags &&& spec.kind.flag ≠ 0 ∧
    let address := if spec.kind = .exec then pc else accessed
    spec.native.address ≤ address ∧ address ≤ spec.native.endaddr

/-! ## The host -/

inductive ArmState where
  | armed
  | failed (reason : String)
  deriving DecidableEq

structure PublicBreakpoint where
  spec : BreakpointSpec
  nativeSlot : ℕ
  armState : ArmState
  deriving DecidableEq

/-- The breakpoints of the host in the order of their ids, and the array of the core. -/
structure Host where
  nextBreakpointId : ℕ
  breakpoints : List (ℕ × PublicBreakpoint)
  native : List NativeBreakpoint
  deriving DecidableEq

def initial : Host := ⟨1, [], []⟩

abbrev N64 := EStateM N64Error Host

/-! ## The core -/

/-- `DBG_NUM_BREAKPOINTS`. -/
def numBreakpoints : N64 ℕ := do return (← get).native.length

def addStruct (rejects : Bool) (spec : NativeBreakpoint) : N64 (Option ℕ) := do
  let s ← get
  if rejects then pure none
  else do
    set { s with native := s.native ++ [spec] }
    return some s.native.length

/-- `BKP_CMD_REMOVE_IDX`: whether there is such a slot. -/
def removeIdx (slot : ℕ) : N64 Bool := do
  let s ← get
  set { s with native := s.native.eraseIdx slot }
  return decide (slot < s.native.length)

/-- `DebugBreakpointLookup`: the first slot whose range meets the addresses and whose flags include these. -/
def lookup (native : List NativeBreakpoint) (address size flags : ℕ) : Option ℕ :=
  native.findIdx? fun b =>
    decide (b.flags &&& flags = flags ∧ b.address < address + size ∧ address ≤ b.endaddr)

/-! ## Keeping the books -/

def failDebuggerSurface (reason : String) : N64 Unit := modify fun s =>
  { s with breakpoints := s.breakpoints.map fun e => (e.1, { e.2 with armState := .failed reason }) }

def foundSlot (native : List NativeBreakpoint) (spec : NativeBreakpoint) : Option ℕ :=
  lookup native spec.address (spec.endaddr - spec.address + 1) spec.flags

def verifyBreakpoint (native : List NativeBreakpoint) (id : ℕ) (breakpoint : PublicBreakpoint) :
    Except N64Error Unit := do
  let spec := breakpoint.spec.native
  require (spec.address ≤ spec.endaddr ∧ spec.endaddr - spec.address + 1 < 2 ^ 32)
    (.badState "N64 native breakpoint range overflow")
  require (foundSlot native spec = some breakpoint.nativeSlot)
    (.badState ("N64 public breakpoint " ++ toString id ++ " expected native slot " ++
      toString breakpoint.nativeSlot ++ ", got " ++ ((foundSlot native spec).map toString).getD "-1"))

def verifyNativeBreakpoints (s : Host) : Except N64Error Unit := do
  require (s.breakpoints.length < 2 ^ 31) (.badState "N64 breakpoint count overflow")
  require (s.native.length = s.breakpoints.length)
    (.badState ("N64 native breakpoint count mismatch: expected " ++ toString s.breakpoints.length ++ ", got " ++
      toString s.native.length))
  s.breakpoints.forM fun e => verifyBreakpoint s.native e.1 e.2

/-- `readiness` is the label of an adapter that is not ready. -/
def requireConnected : (readiness : Option String) → Except N64Error Unit
  | some label => .error (.badState ("Mupen64Plus adapter is not ready: " ++ label))
  | none => .ok ()

def checkSet (readiness : Option String) (params : Json) (s : Host) : Except N64Error BreakpointSpec := do
  requireConnected readiness
  require (s.breakpoints.length < maxBreakpoints) (.badParams "N64 supports at most 128 breakpoints")
  let spec ← breakpointSpec params
  require (∀ e ∈ s.breakpoints, ¬ rangesOverlap e.2.spec spec)
    (.badParams "N64 trigger identity requires non-overlapping ranges of the same kind")
  return spec

def incoherentArm : N64Error := .badState "N64 native breakpoint arm did not complete coherently"

def recordBreakpoint (spec : BreakpointSpec) (slot : ℕ) : N64 Json := do
  let id := (← get).nextBreakpointId
  if id + 1 < 2 ^ 64 then do
    modify fun s =>
      { s with nextBreakpointId := id + 1, breakpoints := OrdMap.insert id ⟨spec, slot, .armed⟩ s.breakpoints }
    match verifyNativeBreakpoints (← get) with
    | .ok () =>
      return .obj [("arm_state", .str "armed"), ("id", .nat id), ("native_slot", .nat slot), ("set", .bool true)]
    | .error error => do
      modify fun s => { s with breakpoints := OrdMap.erase id s.breakpoints }
      let _ ← removeIdx slot
      failDebuggerSurface error.text
      throw error
  else throw (.badState "N64 breakpoint id space is exhausted")

def setBreakpoint (readiness : Option String) (rejects : Bool) (params : Json) : N64 Json := do
  let spec ← fromExcept (checkSet readiness params (← get))
  let before ← numBreakpoints
  match ← addStruct rejects spec.native with
  | none => throw (.badState "Mupen64Plus rejected the breakpoint")
  | some slot => do
    let after ← numBreakpoints
    if slot ≠ before ∨ after ≠ before + 1 then do
      let _ ← removeIdx slot
      failDebuggerSurface ("native arm count mismatch: slot=" ++ toString slot ++ ", before=" ++ toString before ++
        ", after=" ++ toString after)
      throw incoherentArm
    else recordBreakpoint spec slot

/-- The breakpoints with their slots after a removal, up to one that has the slot that was removed. -/
def shiftSlots (removed : ℕ) : List (ℕ × PublicBreakpoint) → List (ℕ × PublicBreakpoint) × Bool
  | [] => ([], false)
  | (id, breakpoint) :: rest =>
    match slotAfterClear breakpoint.nativeSlot removed with
    | none => ((id, breakpoint) :: rest, true)
    | some slot =>
      ((id, { breakpoint with nativeSlot := slot }) :: (shiftSlots removed rest).1, (shiftSlots removed rest).2)

def clearBreakpoint (params : Json) : N64 Json := do
  let id ← fromExcept (requiredNum params "id")
  match OrdMap.find? id (← get).breakpoints with
  | none => throw (.badParams ("unknown N64 breakpoint id: " ++ toString id))
  | some breakpoint => do
    let before ← numBreakpoints
    let removed ← removeIdx breakpoint.nativeSlot
    let after ← numBreakpoints
    if removed = false ∨ before = 0 ∨ after ≠ before - 1 then do
      failDebuggerSurface ("native clear count mismatch: result=" ++ (if removed then "0" else "-1") ++ ", before=" ++
        toString before ++ ", after=" ++ toString after)
      throw (.badState "N64 native breakpoint clear did not complete coherently")
    else do
      let (rest, collided) := shiftSlots breakpoint.nativeSlot (OrdMap.erase id (← get).breakpoints)
      modify fun s => { s with breakpoints := rest }
      demand (collided = false) (.badState "N64 breakpoint slot identity collided")
      match verifyNativeBreakpoints (← get) with
      | .ok () => return .obj [("cleared", .nat id)]
      | .error error => do
        failDebuggerSurface error.text
        throw error

def clearAllBreakpoints : N64 Json := do
  let ids := (← get).breakpoints.map Prod.fst
  ids.forM fun id => do
    let _ ← clearBreakpoint (.obj [("id", .nat id)])
  return .obj [("cleared", .arr (ids.map .nat))]

end Emucap.N64Adapter
