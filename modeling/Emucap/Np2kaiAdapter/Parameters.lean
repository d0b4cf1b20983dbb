import Emucap.Lib.Json
import Emucap.NumParse

/-!
# Parameters of NP2kai breakpoints

`np2kai_adapter/debug.rs` and `np2kai_adapter/support.rs`: the memory regions of the machine, and what a request for a
breakpoint is read as.
-/

namespace Emucap.Np2kaiAdapter

open Emucap.Lib

inductive Np2kaiError where
  | badParams (message : String)
  /-- invalid snapshot spec: {item} -/
  | invalidSnapshot (item : Json)
  | core (message : String)
  deriving DecidableEq

abbrev Np2kaiResult := Except Np2kaiError

/-! ## Numbers and texts -/

def parseNum : Json → Option ℕ
  | .nat n => (Json.nat n).asU64
  | .str value => (NumParse.parseNumStr value.toList).toOption
  | _ => none

def optionalNum (params : Json) (key : String) : Np2kaiResult (Option ℕ) :=
  match params.get key with
  | some value => (orError (.badParams ("invalid numeric param: " ++ key)) (parseNum value)).map some
  | none => .ok none

def requiredNum (params : Json) (key : String) : Np2kaiResult ℕ := do
  orError (.badParams ("missing required param: " ++ key)) (← optionalNum params key)

def textOr (params : Json) (key default : String) : String := ((params.get key).bind Json.asStr).getD default

def boolOr (params : Json) (key : String) (default : Bool) : Bool := ((params.get key).bind Json.asBool).getD default

/-- `{:#x}`. -/
def hexText (n : ℕ) : String := "0x" ++ String.ofList (Nat.toDigits 16 n)

/-! ## Memory -/

structure MemoryRegion where
  name : String
  base : ℕ
  size : ℕ
  deriving DecidableEq

def memoryRegions : List MemoryRegion :=
  [⟨"cpu", 0x00000, 0x100000⟩, ⟨"physical", 0x00000, 0x100000⟩, ⟨"ram", 0x00000, 0x100000⟩,
    ⟨"tvram", 0xA0000, 0x4000⟩, ⟨"gvram_b", 0xA8000, 0x8000⟩, ⟨"gvram_r", 0xB0000, 0x8000⟩,
    ⟨"gvram_g", 0xB8000, 0x8000⟩, ⟨"gvram_i", 0xE0000, 0x8000⟩]

def maxMemoryChunk : ℕ := 0x4000

def memorySpace : ℕ := 0x100000

def memoryRegion (name : String) : Option MemoryRegion := memoryRegions.find? fun region => region.name = name

theorem memoryRegion_fits {name : String} {region : MemoryRegion} (h : memoryRegion name = some region) :
    region.base + region.size ≤ memorySpace := by
  have hall : ∀ r ∈ memoryRegions, r.base + r.size ≤ memorySpace := by decide
  exact hall region (List.mem_of_find?_eq_some h)

def requestedRegion (params : Json) : Np2kaiResult MemoryRegion :=
  let name := textOr params "memory_type" "physical"
  orError (.badParams ("unsupported memory_type: " ++ name)) (memoryRegion name)

/-! ## Filters -/

def breakpointPcRange (params : Json) : Np2kaiResult (Option ℕ × Option ℕ) := do
  let pcMin ← convert "pc_min"
  let pcMax ← convert "pc_max"
  require (ordered pcMin pcMax) (.badParams "pc_min must be <= pc_max")
  return (pcMin, pcMax)
where
  convert (key : String) : Np2kaiResult (Option ℕ) := do
    let value ← optionalNum params key
    require (value.getD 0 < 2 ^ 32) (.badParams (key ++ " exceeds the 32-bit PC-98 address space"))
    return value
  ordered : Option ℕ → Option ℕ → Bool
    | some low, some high => decide (low ≤ high)
    | _, _ => true

structure ValueFilter where
  hasValue : Bool
  value : ℕ
  valueMask : ℕ
  valueLen : ℕ
  deriving DecidableEq

def breakpointValueFilter (params : Json) (kind : String) : Np2kaiResult ValueFilter := do
  let hasValue := (params.get "value").isSome || (params.get "value_mask").isSome || (params.get "value_len").isSome
  require (hasValue = true → kind = "write") (.badParams
    "NP2kai value filters apply only to write breakpoints; read values are not authoritative at the native hook")
  let valueLen := (← optionalNum params "value_len").getD 1
  require (hasValue = true → 1 ≤ valueLen ∧ valueLen ≤ 4) (.badParams "value_len must be in 1..=4")
  let bitMask := 2 ^ (valueLen * 8) - 1
  let value := (← optionalNum params "value").getD 0
  let valueMask := (← optionalNum params "value_mask").getD bitMask
  require (value ≤ bitMask ∧ valueMask ≤ bitMask)
    (.badParams ("value and value_mask must fit value_len=" ++ toString valueLen))
  return ⟨hasValue, value, valueMask, valueLen⟩

/-! ## Snapshots -/

def maxBreakpointSnapshots : ℕ := 16

def maxBreakpointSnapshotBytes : ℕ := 0x4000

structure SnapshotSpec where
  memoryType : String
  address : ℕ
  length : ℕ
  deriving DecidableEq

def parseSnapshot (total : ℕ) (item : Json) : Np2kaiResult (SnapshotSpec × ℕ) := do
  let text ← orError (.invalidSnapshot item) item.asStr
  match text.toList.splitOn ':' with
  | [memory, first, count] => do
    let region ← orError (.badParams ("unsupported snapshot memory_type: " ++ String.ofList memory))
      (memoryRegion (String.ofList memory))
    let address ← orError (.badParams ("invalid snapshot address: " ++ String.ofList first))
      (NumParse.parseNumStr first).toOption
    let length ← orError (.badParams ("invalid snapshot length: " ++ String.ofList count))
      (NumParse.parseNumStr count).toOption
    require (0 < length ∧ length ≤ maxMemoryChunk ∧ address + length < 2 ^ 64 ∧ address + length ≤ region.size)
      (.badParams ("snapshot range exceeds " ++ region.name))
    let total ← orError (.badParams "snapshot byte total overflow") (checkedAdd total length)
    require (total ≤ maxBreakpointSnapshotBytes)
      (.badParams ("snapshot byte total exceeds " ++ hexText maxBreakpointSnapshotBytes))
    return (⟨region.name, address, length⟩, total)
  | _ => .error (.badParams ("invalid snapshot spec: " ++ text))

def parseSnapshotItems : ℕ → List Json → Np2kaiResult (List SnapshotSpec)
  | _, [] => .ok []
  | total, item :: items => do
    let (spec, total) ← parseSnapshot total item
    return spec :: (← parseSnapshotItems total items)

def parseSnapshots : Option Json → Np2kaiResult (List SnapshotSpec)
  | none => .ok []
  | some .null => .ok []
  | some raw => do
    let items ← orError (.badParams "snapshot must be a list") raw.asArray
    require (items.length ≤ maxBreakpointSnapshots) (.badParams "snapshot accepts at most 16 ranges")
    parseSnapshotItems 0 items

/-- A range of a region of the machine. -/
structure SnapshotSpec.Fits (spec : SnapshotSpec) : Prop where
  region : ∃ region, memoryRegion spec.memoryType = some region ∧ spec.address + spec.length ≤ region.size
  some : 0 < spec.length

theorem parseSnapshot_fits {total total' : ℕ} {item : Json} {spec : SnapshotSpec}
    (h : parseSnapshot total item = .ok (spec, total')) : spec.Fits := by
  obtain ⟨text, -, h⟩ := bind_eq_ok.mp h
  split at h
  · obtain ⟨region, hregion, h⟩ := bind_eq_ok.mp h
    obtain ⟨address, -, h⟩ := bind_eq_ok.mp h
    obtain ⟨length, -, h⟩ := bind_eq_ok.mp h
    rw [require_bind_eq_ok] at h
    obtain ⟨hrange, h⟩ := h
    obtain ⟨counted, -, h⟩ := bind_eq_ok.mp h
    rw [require_bind_eq_ok] at h
    obtain ⟨-, h⟩ := h
    cases h
    have hfound := orError_eq_ok.mp hregion
    have hnamed : memoryRegion region.name = some region := by
      have hall : ∀ r ∈ memoryRegions, memoryRegion r.name = some r := by decide
      exact hall region (List.mem_of_find?_eq_some hfound)
    exact ⟨⟨region, hnamed, hrange.2.2.2⟩, hrange.1⟩
  · cases h

theorem parseSnapshotItems_fit {total : ℕ} {items : List Json} {specs : List SnapshotSpec}
    (h : parseSnapshotItems total items = .ok specs) : ∀ spec ∈ specs, spec.Fits := by
  induction items generalizing total specs with
  | nil =>
    cases h
    exact fun _ hmem => absurd hmem List.not_mem_nil
  | cons item items ih =>
    obtain ⟨⟨spec, total'⟩, hspec, h⟩ := bind_eq_ok.mp h
    obtain ⟨rest, hrest, h⟩ := bind_eq_ok.mp h
    cases h
    rw [List.forall_mem_cons]
    exact ⟨parseSnapshot_fits hspec, ih hrest⟩

theorem parseSnapshots_fit {raw : Option Json} {specs : List SnapshotSpec} (h : parseSnapshots raw = .ok specs) :
    ∀ spec ∈ specs, spec.Fits := by
  unfold parseSnapshots at h
  split at h
  · cases h
    exact fun _ hmem => absurd hmem List.not_mem_nil
  · cases h
    exact fun _ hmem => absurd hmem List.not_mem_nil
  · obtain ⟨items, -, h⟩ := bind_eq_ok.mp h
    rw [require_bind_eq_ok] at h
    exact parseSnapshotItems_fit h.2

end Emucap.Np2kaiAdapter
