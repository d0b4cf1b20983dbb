import Emucap.Lib.Hex
import Emucap.Lib.OrdMap
import Mathlib.Data.List.Sort
import Mathlib.Data.Char
import Mathlib.Data.List.Lex

/-!
# The debugger inside openMSX

The Tcl namespace `::emucap`: the snapshot specifications, the bounded queue that `hit` fills and `drain` empties, and
the inventory of the native points. The `catch` branches of `hit` are not taken; openMSX chooses the native
identifiers (`Chooser`).
-/

namespace Emucap.OpenmsxBridge

open Emucap.Lib

inductive Kind where
  | exec
  | read
  | write
  deriving DecidableEq

def Kind.token : Kind → Char
  | .exec => 'x'
  | .read => 'r'
  | .write => 'w'

def Kind.ofToken : List Char → Option Kind
  | ['x'] => some .exec
  | ['r'] => some .read
  | ['w'] => some .write
  | _ => none

theorem Kind.ofToken_token (k : Kind) : Kind.ofToken [k.token] = some k := by
  cases k <;> rfl

/-- Whether a point is in the list of watchpoints, and not of breakpoints. -/
def Kind.watch : Kind → Bool
  | .exec => false
  | .read => true
  | .write => true

structure NativePoint where
  nativeId : List Char
  kind : Kind
  start : ℕ
  stop : ℕ
  publicId : ℕ
  deriving DecidableEq

/-- One range to read on a hit: the code of the memory, the address and the length. -/
structure SpecValue where
  code : Char
  address : ℕ
  length : ℕ
  deriving DecidableEq

structure Native where
  seq : ℕ
  queue : List (List Char)
  queueBytes : ℕ
  dropped : ℕ
  specs : List (ℕ × List SpecValue)
  points : List NativePoint

namespace Native

/-- The state after `DEBUGGER_TCL` in a machine without points. -/
def init : Native := ⟨0, [], 0, 0, [], []⟩

/-! ## Hits -/

/-- What the guest shows to the callback of a hit. -/
structure Capture where
  pc : ℕ
  /-- `::wp_last_address` -/
  address : ℕ
  /-- `::wp_last_value` -/
  value : ℕ
  registers : List ℕ
  /-- `debug read_block` -/
  readBlock : Char → ℕ → ℕ → List UInt8

def decimal (n : ℕ) : List Char := Nat.toDigits 10 n

def snapshotText (c : Capture) (spec : SpecValue) : List Char :=
  [','].intercalate [[spec.code], decimal spec.address, decimal spec.length,
    encodeHex (c.readBlock spec.code spec.address spec.length)]

def specsOf (n : Native) (id : ℕ) : List SpecValue := (OrdMap.find? id n.specs).getD []

def recordFields (n : Native) (point : NativePoint) (c : Capture) (seq : ℕ) : List (List Char) :=
  [decimal seq, decimal point.publicId, [point.kind.token], decimal c.pc,
    if point.kind = .exec then ['-'] else decimal c.address,
    if point.kind = .write then decimal c.value else ['-'],
    [','].intercalate (c.registers.map decimal),
    [';'].intercalate ((n.specsOf point.publicId).map (snapshotText c)), []]

def record (n : Native) (point : NativePoint) (c : Capture) (seq : ℕ) : List Char :=
  ['|'].intercalate (n.recordFields point c seq)

/-- The loop that makes room for a line of `recordBytes`: the queue, its size, the drops, and whether there is
room in the end. -/
def makeRoom (recordBytes : ℕ) : List (List Char) → ℕ → ℕ → (List (List Char) × ℕ × ℕ) × Bool
  | [], bytes, dropped =>
    if 1048576 < bytes + recordBytes then (([], bytes, dropped + 1), false) else (([], bytes, dropped), true)
  | oldest :: rest, bytes, dropped =>
    if 64 ≤ (oldest :: rest).length ∨ 1048576 < bytes + recordBytes then
      makeRoom recordBytes rest (bytes - oldest.length - 1) (dropped + 1)
    else ((oldest :: rest, bytes, dropped), true)

def hit (n : Native) (point : NativePoint) (c : Capture) : Native :=
  let line := n.record point c (n.seq + 1)
  let room := makeRoom (line.length + 1) n.queue n.queueBytes n.dropped
  { n with
    seq := n.seq + 1
    queue := if room.2 then room.1.1 ++ [line] else room.1.1
    queueBytes := if room.2 then room.1.2.1 + (line.length + 1) else room.1.2.1
    dropped := room.1.2.2 }

/-! ## Draining and the inventory -/

def drainPayload (n : Native) : List Char := decimal n.dropped ++ '\n' :: ['\n'].intercalate n.queue

def inventoryRecord (p : NativePoint) : List Char :=
  ['|'].intercalate [p.nativeId, [p.kind.token], decimal p.start, decimal p.stop, decimal p.publicId]

def inventorySorted (n : Native) : List NativePoint :=
  n.points.insertionSort fun p q => inventoryRecord p ≤ inventoryRecord q

def inventoryText (n : Native) : List Char := ['\n'].intercalate (n.inventorySorted.map inventoryRecord)

/-! ## Commands -/

inductive Command where
  /-- `::emucap::set_spec` -/
  | setSpec (id : ℕ) (values : List SpecValue)
  /-- `::emucap::unset_spec` -/
  | unsetSpec (id : ℕ)
  /-- `debug breakpoint create` or `debug watchpoint create`, with the callback `::emucap::hit {id} {token}` -/
  | create (kind : Kind) (start stop : ℕ) (id : ℕ)
  /-- `debug breakpoint remove` or `debug watchpoint remove` -/
  | remove (watch : Bool) (nativeId : List Char)
  /-- `::emucap::inventory` -/
  | inventory
  /-- `::emucap::drain` -/
  | drain
  deriving DecidableEq

/-- The points of the list of watchpoints, or of the list of breakpoints. -/
def collection (n : Native) (watch : Bool) : List NativePoint := n.points.filter fun p => p.kind.watch = watch

/-- How openMSX names a new point: from what it has counted so far, the list the point goes to and the names in
use there. -/
abbrev Chooser := ℕ → Bool → List (List Char) → List Char

/-- The reply to a command, and the state after it. -/
def exec (choose : Chooser) (n : Native) (count : ℕ) : Command → List Char × Native
  | .setSpec id values => ([], { n with specs := OrdMap.insert id values n.specs })
  | .unsetSpec id => ([], { n with specs := OrdMap.erase id n.specs })
  | .create kind start stop id =>
    let nativeId := choose count kind.watch ((n.collection kind.watch).map (·.nativeId))
    (nativeId, { n with points := n.points ++ [⟨nativeId, kind, start, stop, id⟩] })
  | .remove watch nativeId =>
    ([], { n with points := n.points.filter fun p => ¬ (p.kind.watch = watch ∧ p.nativeId = nativeId) })
  | .inventory => (encodeHexText n.inventoryText, n)
  | .drain => (encodeHexText n.drainPayload, { n with queue := [], queueBytes := 0, dropped := 0 })

end Native

end Emucap.OpenmsxBridge
