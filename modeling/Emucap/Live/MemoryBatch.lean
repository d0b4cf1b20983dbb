import Emucap.Lib.Checked
import Emucap.Live.CaptureCapsule
import Mathlib.Algebra.BigOperators.Group.List.Basic
import Mathlib.Algebra.GroupWithZero.Nat

/-!
# Memory batches

Admission and reply check of `read_memory_batch` (`live/memory_batch.rs`); `admitBatch` is `admit` in the source. Sums
that the code does not check are modelled as sums that stop at an overflow; none overflows.
-/

namespace Emucap.Live.MemoryBatch

open Emucap.Lib

def coreMaxRanges : ℕ := 64

def coreMaxTotalBytes : ℕ := 64 * 1024

def consistencyFrozenBoundary : String := "frozen_boundary"

structure MemoryWindow where
  memoryType : String
  address : ℕ
  length : ℕ
  deriving DecidableEq

/-- Static batch limits advertised in hello. -/
structure MemoryBatchCapability where
  maxRanges : ℕ
  maxRangeBytes : ℕ
  maxTotalBytes : ℕ
  consistency : String
  haltKinds : List String
  windows : List MemoryWindow
  deriving DecidableEq

structure BatchRange where
  memoryType : String
  address : ℕ
  length : ℕ
  deriving DecidableEq

/-- Why a check stops: an answer to the caller, or the overflow of an unchecked sum. -/
inductive Stop (ε : Type) where
  | refused (error : ε)
  | overflow
  deriving DecidableEq

/-! ## Capabilities -/

def MemoryWindow.fromValue (v : Json) : Option MemoryWindow := do
  guard (v.onlyFields ["memory_type", "address", "length"])
  let memoryType ← (← v.field 3 0 "memory_type").asStr
  let address ← (← v.field 3 1 "address").asU64
  let length ← (← v.field 3 2 "length").asU64
  some ⟨memoryType, address, length⟩

namespace MemoryBatchCapability

def fromValue (v : Json) : Option MemoryBatchCapability := do
  guard (v.onlyFields ["max_ranges", "max_range_bytes", "max_total_bytes", "consistency", "halt_kinds", "windows"])
  let maxRanges ← (← v.field 6 0 "max_ranges").asU64
  let maxRangeBytes ← (← v.field 6 1 "max_range_bytes").asU64
  let maxTotalBytes ← (← v.field 6 2 "max_total_bytes").asU64
  let consistency ← (← v.field 6 3 "consistency").asStr
  let haltKinds ← (← (← v.field 6 4 "halt_kinds").asArray).mapM Json.asStr
  let windows ← (← (← v.field 6 5 "windows").asArray).mapM MemoryWindow.fromValue
  some ⟨maxRanges, maxRangeBytes, maxTotalBytes, consistency, haltKinds, windows⟩

def validateWindow (memoryTypes : List String) (window : MemoryWindow) : Except String Unit := do
  require (window.memoryType ∈ memoryTypes)
    ("window memory_type " ++ window.memoryType ++ " is not advertised in memory_types")
  require (window.length ≠ 0 ∧ checkedAdd window.address window.length ≠ none)
    ("window " ++ window.memoryType ++ "@" ++ toString window.address ++ " has an empty or overflowing length")

variable (cap : MemoryBatchCapability)

def validate (memoryTypes : List String) : Except String Unit := do
  require (1 ≤ cap.maxRanges ∧ cap.maxRanges ≤ coreMaxRanges) ("max_ranges must be 1..=" ++ toString coreMaxRanges)
  require (2 ≤ cap.maxRanges) "max_ranges must admit at least two ranges"
  require (1 ≤ cap.maxTotalBytes ∧ cap.maxTotalBytes ≤ coreMaxTotalBytes)
    ("max_total_bytes must be 1..=" ++ toString coreMaxTotalBytes)
  require (cap.maxRangeBytes ≠ 0 ∧ cap.maxRangeBytes ≤ cap.maxTotalBytes) "max_range_bytes must be 1..=max_total_bytes"
  require (cap.consistency = consistencyFrozenBoundary) ("consistency must be " ++ consistencyFrozenBoundary)
  require (cap.haltKinds ≠ [] ∧ "" ∉ cap.haltKinds) "halt_kinds must name at least one stop kind"
  require (cap.windows ≠ []) "windows must name at least one side-effect-free window"
  cap.windows.forM (validateWindow memoryTypes)

def fromHello (value : Json) (memoryTypes : List String) : Except String MemoryBatchCapability := do
  let capability ← orError "invalid memory_batch_capability" (fromValue value)
  capability.validate memoryTypes
  pure capability

/-! ## Admission -/

/-- Whether the range whose end is `last` lies in the window; the end of the window is an unchecked sum. -/
def insideWindow (range : BatchRange) (last : ℕ) (window : MemoryWindow) : Option Bool :=
  if window.memoryType = range.memoryType ∧ window.address ≤ range.address then
    (checkedAdd window.address window.length).map (last ≤ ·)
  else some false

def windowContains (range : BatchRange) : Option Bool :=
  match checkedAdd range.address range.length with
  | none => some false
  | some last => cap.windows.anyM (insideWindow range last)

def outsideWindows (index : ℕ) (range : BatchRange) : String :=
  "range " ++ toString index ++ " (" ++ range.memoryType ++ " 0x" ++
    String.ofList (Nat.toDigits 16 range.address) ++ "+" ++ toString range.length ++
    ") is outside the advertised batch windows"

def admitRange (total : ℕ) (entry : BatchRange × ℕ) : Except (Stop String) ℕ := do
  require (entry.1.length ≠ 0 ∧ entry.1.length ≤ cap.maxRangeBytes)
    (.refused ("range " ++ toString entry.2 ++ " length must be 1..=" ++ toString cap.maxRangeBytes))
  let inside ← orError .overflow (cap.windowContains entry.1)
  require inside (.refused (outsideWindows entry.2 entry.1))
  let total ← orError .overflow (checkedAdd total entry.1.length)
  require (total ≤ cap.maxTotalBytes) (.refused ("ranges exceed max_total_bytes " ++ toString cap.maxTotalBytes))
  pure total

def admitBatch (ranges : List BatchRange) : Except (Stop String) Unit := do
  require (ranges ≠ [] ∧ ranges.length ≤ cap.maxRanges)
    (.refused ("ranges must contain 1..=" ++ toString cap.maxRanges ++ " entries"))
  let _ ← ranges.zipIdx.foldlM cap.admitRange 0
  pure ()

end MemoryBatchCapability

/-! ## Replies -/

def boundaryToken (boundary : Json) (name : String) : Except String String :=
  orError ("boundary." ++ name ++ " is missing") (((boundary.get name).bind Json.asStr).filter (· ≠ ""))

def clockNamed (clock : Json) : Bool :=
  ((clock.get "domain").bind Json.asStr).any (· ≠ "") && ((clock.get "value").bind Json.asU64).isSome

def verifyBoundary (boundary : Option Json) (expectedGeneration : Option String) : Except String Unit := do
  let boundary ← orError "boundary is missing" boundary
  let generation ← boundaryToken boundary "runtime_generation"
  require (∀ expected ∈ expectedGeneration, expected = generation)
    "boundary.runtime_generation is not the connected generation"
  let _ ← boundaryToken boundary "stop_epoch"
  let _ ← boundaryToken boundary "memory_mapping_epoch"
  let clocks ← orError "boundary.clocks is missing" ((boundary.get "clocks").bind Json.asArray)
  require (clocks.all clockNamed) "boundary clock requires a domain and an unsigned value"

def invalid (reason : String) : Stop LinkError :=
  .refused (.protocol ("invalid memory batch reply: " ++ reason))

def hexLen (read : Json) : Option ℕ :=
  (((read.get "hex").bind Json.asStr).filter fun hex => hex.toList.all isAsciiHexDigit).map String.utf8ByteSize

/-- The unchecked `a * b` of 64-bit numbers. -/
def checkedMul (a b : ℕ) : Option ℕ := if a * b < 2 ^ 64 then some (a * b) else none

/-- The read describes the range at its place in the request. -/
def Describes (read : Json) (index : ℕ) (range : BatchRange) : Prop :=
  (read.get "index").bind Json.asU64 = some index ∧
    (read.get "memory_type").bind Json.asStr = some range.memoryType ∧
    (read.get "address").bind Json.asU64 = some range.address ∧
    (read.get "length").bind Json.asU64 = some range.length

instance (read : Json) (index : ℕ) (range : BatchRange) : Decidable (Describes read index range) :=
  inferInstanceAs (Decidable (_ ∧ _))

def verifyRead (total : ℕ) (entry : (Json × BatchRange) × ℕ) : Except (Stop LinkError) ℕ := do
  let ((read, range), index) := entry
  require (Describes read index range) (invalid ("read " ++ toString index ++ " descriptor differs from the request"))
  let digits ← orError .overflow (checkedMul range.length 2)
  require (hexLen read = some digits) (invalid ("read " ++ toString index ++ " payload length differs"))
  orError .overflow (checkedAdd total range.length)

def verifyReply (ranges : List BatchRange) (reply : Json) (expectedGeneration : Option String) :
    Except (Stop LinkError) Unit := do
  require ((reply.get "state").bind Json.asStr = some "frozen") (invalid "state is not frozen")
  require ((reply.get "consistency").bind Json.asStr = some consistencyFrozenBoundary)
    (invalid "consistency is not frozen_boundary")
  (verifyBoundary (reply.get "boundary") expectedGeneration).mapError invalid
  let reads ← orError (invalid "reads is missing") ((reply.get "reads").bind Json.asArray)
  require (reads.length = ranges.length) (invalid "read count differs from the request")
  let total ← (reads.zip ranges).zipIdx.foldlM verifyRead 0
  require ((reply.get "total_bytes").bind Json.asU64 = some total) (invalid "total_bytes differs from the request")

/-! ## Checks that decide -/

/-- The answer of a check: `value` where `Q` holds, or a refusal where it does not. -/
def Decides {ε α : Type} (x : Except (Stop ε) α) (Q : Prop) (value : α) : Prop :=
  (x = .ok value ∧ Q) ∨ (∃ error, x = .error (.refused error)) ∧ ¬ Q

theorem Decides.require_bind {ε α : Type} {c : Prop} [Decidable c] {e : ε} {f : Unit → Except (Stop ε) α} {Q : Prop}
    {value : α} (himp : Q → c) (hf : c → Decides (f ()) Q value) : Decides (require c (.refused e) >>= f) Q value := by
  by_cases hc : c
  · rw [show require c (Stop.refused e) = .ok () from if_pos hc]
    exact hf hc
  · rw [show require c (Stop.refused e) = .error (.refused e) from if_neg hc]
    exact .inr ⟨⟨e, rfl⟩, fun hQ => hc (himp hQ)⟩

/-! ## What is admitted -/

/-- The half-open range lies in the window. -/
structure MemoryWindow.Contains (window : MemoryWindow) (range : BatchRange) : Prop where
  memoryType : window.memoryType = range.memoryType
  first : window.address ≤ range.address
  last : range.address + range.length ≤ window.address + window.length

/-- What a capability promises for a request. -/
structure Admissible (cap : MemoryBatchCapability) (ranges : List BatchRange) : Prop where
  nonempty : 1 ≤ ranges.length
  count : ranges.length ≤ cap.maxRanges
  lengths : ∀ range ∈ ranges, 1 ≤ range.length ∧ range.length ≤ cap.maxRangeBytes
  inside : ∀ range ∈ ranges, ∃ window ∈ cap.windows, window.Contains range
  total : (ranges.map BatchRange.length).sum ≤ cap.maxTotalBytes

/-- What `from_hello` checks of the numbers of a capability. -/
structure MemoryBatchCapability.Valid (cap : MemoryBatchCapability) : Prop where
  totalBytes : cap.maxTotalBytes ≤ coreMaxTotalBytes
  rangeBytes : cap.maxRangeBytes ≤ cap.maxTotalBytes
  windows : ∀ window ∈ cap.windows, window.address + window.length < 2 ^ 64

namespace MemoryBatchCapability

theorem validateWindow_fits {memoryTypes : List String} {window : MemoryWindow} {u : Unit}
    (h : validateWindow memoryTypes window = .ok u) : window.address + window.length < 2 ^ 64 := by
  rw [validateWindow, require_bind_eq_ok, require_eq_ok] at h
  obtain ⟨-, -, hsum⟩ := h
  obtain ⟨sum, hsum⟩ := Option.ne_none_iff_exists'.mp hsum
  exact (checkedAdd_eq_some.mp hsum).1

theorem forM_validateWindow {memoryTypes : List String} {windows : List MemoryWindow} {u : Unit}
    (h : windows.forM (validateWindow memoryTypes) = .ok u) :
    ∀ window ∈ windows, window.address + window.length < 2 ^ 64 := by
  induction windows with
  | nil => simp
  | cons window rest ih =>
    change (validateWindow memoryTypes window >>= fun _ => rest.forM (validateWindow memoryTypes)) = .ok u at h
    obtain ⟨_, hfirst, hrest⟩ := bind_eq_ok.mp h
    rw [List.forall_mem_cons]
    exact ⟨validateWindow_fits hfirst, ih hrest⟩

theorem fromHello_valid {value : Json} {memoryTypes : List String} {cap : MemoryBatchCapability}
    (h : fromHello value memoryTypes = .ok cap) : cap.Valid := by
  rw [fromHello, orError_bind_eq_ok] at h
  obtain ⟨capability, -, h⟩ := h
  obtain ⟨_, hvalid, h⟩ := bind_eq_ok.mp h
  obtain rfl := Except.ok.inj h
  simp only [validate, require_bind_eq_ok] at hvalid
  obtain ⟨-, -, htotal, hrange, -, -, -, hwindows⟩ := hvalid
  exact ⟨htotal.2, hrange.2, forM_validateWindow hwindows⟩

section admission
variable {cap : MemoryBatchCapability}

theorem anyM_some {α : Type} {p : α → Option Bool} {q : α → Bool} {l : List α}
    (h : ∀ a ∈ l, p a = some (q a)) : l.anyM p = some (l.any q) := by
  induction l with
  | nil => rfl
  | cons a l ih =>
    rw [List.forall_mem_cons] at h
    rw [List.anyM, h.1, Option.bind_eq_bind, Option.bind_some, ih h.2]
    cases hq : q a with
    | true => simp [hq]
    | false => simp [hq]

open Classical in
theorem insideWindow_eq {range : BatchRange} {window : MemoryWindow}
    (hfits : window.address + window.length < 2 ^ 64) :
    insideWindow range (range.address + range.length) window = some (decide (window.Contains range)) := by
  have hend : checkedAdd window.address window.length = some (window.address + window.length) := if_pos hfits
  unfold insideWindow
  split_ifs with hstart
  · rw [hend, Option.map_some, Option.some.injEq, decide_eq_decide]
    exact ⟨fun hlast => ⟨hstart.1, hstart.2, hlast⟩, fun h => h.last⟩
  · rw [Option.some.injEq, eq_comm, decide_eq_false_iff_not]
    exact fun h => hstart ⟨h.memoryType, h.first⟩

theorem windowContains_eq (hvalid : cap.Valid) (range : BatchRange) :
    ∃ inside, cap.windowContains range = some inside ∧
      (inside = true ↔ ∃ window ∈ cap.windows, window.Contains range) := by
  classical
  unfold windowContains
  by_cases hlast : range.address + range.length < 2 ^ 64
  · refine ⟨cap.windows.any fun window => decide (window.Contains range), ?_, by simp⟩
    rw [show checkedAdd range.address range.length = some (range.address + range.length) from if_pos hlast]
    exact anyM_some fun window hwindow => insideWindow_eq (hvalid.windows window hwindow)
  · refine ⟨false, ?_, ?_⟩
    · rw [show checkedAdd range.address range.length = none from if_neg hlast]
    · rw [Bool.false_eq_true, false_iff]
      rintro ⟨window, hwindow, hcontains⟩
      have hfits := hvalid.windows window hwindow
      have hend := hcontains.last
      omega

/-- The ranges lie in windows, each with a length of its own that is admitted, and together they stay below the limit
when `total` bytes have been asked for before them. -/
def Fit (cap : MemoryBatchCapability) (total : ℕ) (ranges : List BatchRange) : Prop :=
  (∀ range ∈ ranges, 1 ≤ range.length ∧ range.length ≤ cap.maxRangeBytes) ∧
    (∀ range ∈ ranges, ∃ window ∈ cap.windows, window.Contains range) ∧
    total + (ranges.map BatchRange.length).sum ≤ cap.maxTotalBytes

/-- One range of the request passes where it fits after what was asked for before it. Its length is checked before it
is added, so the sum is at most twice the limit on the total. -/
theorem admitRange_decides (hvalid : cap.Valid) {total index : ℕ} {range : BatchRange}
    (htotal : total ≤ cap.maxTotalBytes) :
    Decides (cap.admitRange total (range, index)) (cap.Fit total [range]) (total + range.length) := by
  obtain ⟨inside, hinside, hiff⟩ := windowContains_eq hvalid range
  have hfit : cap.Fit total [range] ↔ (range.length ≠ 0 ∧ range.length ≤ cap.maxRangeBytes) ∧ inside = true ∧
      total + range.length ≤ cap.maxTotalBytes := by
    simp [Fit, hiff, Nat.one_le_iff_ne_zero]
  unfold admitRange
  apply Decides.require_bind (fun h => (hfit.mp h).1)
  intro hlength
  rw [hinside]
  apply Decides.require_bind (fun h => (hfit.mp h).2.1)
  intro hinside
  have hlimit := hvalid.totalBytes
  have hrange := hvalid.rangeBytes
  have hcore : coreMaxTotalBytes = 65536 := rfl
  rw [show checkedAdd total range.length = some (total + range.length) from if_pos (by omega)]
  apply Decides.require_bind (fun h => (hfit.mp h).2.2)
  intro hsum
  exact .inl ⟨rfl, hfit.mpr ⟨hlength, hinside, hsum⟩⟩

theorem admitRanges_decides (hvalid : cap.Valid) {ranges : List BatchRange} {total index : ℕ}
    (htotal : total ≤ cap.maxTotalBytes) :
    Decides ((ranges.zipIdx index).foldlM cap.admitRange total) (cap.Fit total ranges)
      (total + (ranges.map BatchRange.length).sum) := by
  induction ranges generalizing total index with
  | nil => exact .inl ⟨rfl, by simpa [Fit] using htotal⟩
  | cons range rest ih =>
    have hsplit : cap.Fit total (range :: rest) ↔ cap.Fit total [range] ∧ cap.Fit (total + range.length) rest := by
      simp only [Fit, List.forall_mem_cons, List.map_cons, List.sum_cons, List.map_nil, List.sum_nil,
        List.not_mem_nil, false_imp_iff, implies_true, and_true]
      constructor
      · rintro ⟨⟨hlength, hlengths⟩, ⟨hinside, hinsides⟩, hsum⟩
        exact ⟨⟨hlength, hinside, by omega⟩, hlengths, hinsides, by omega⟩
      · rintro ⟨⟨hlength, hinside, -⟩, hlengths, hinsides, hsum⟩
        exact ⟨⟨hlength, hlengths⟩, ⟨hinside, hinsides⟩, by omega⟩
    rw [List.zipIdx_cons, List.foldlM_cons]
    rcases @admitRange_decides cap hvalid total index range htotal with ⟨hrun, hfit⟩ | ⟨⟨error, hrun⟩, hfit⟩
    · have hnext : total + range.length ≤ cap.maxTotalBytes := by simpa using hfit.2.2
      rw [hrun, ok_bind, hsplit, List.map_cons, List.sum_cons, ← Nat.add_assoc]
      simpa only [hfit, true_and] using ih hnext
    · rw [hrun]
      exact .inr ⟨⟨error, rfl⟩, fun h => hfit (hsplit.mp h).1⟩

theorem admitBatch_decides (hvalid : cap.Valid) (ranges : List BatchRange) :
    Decides (cap.admitBatch ranges) (Admissible cap ranges) () := by
  have hsplit : Admissible cap ranges ↔ (ranges ≠ [] ∧ ranges.length ≤ cap.maxRanges) ∧ cap.Fit 0 ranges := by
    rw [Fit, Nat.zero_add, ← List.length_pos_iff]
    exact ⟨fun ⟨hpos, hcount, hlengths, hinside, htotal⟩ => ⟨⟨hpos, hcount⟩, hlengths, hinside, htotal⟩,
      fun ⟨⟨hpos, hcount⟩, hlengths, hinside, htotal⟩ => ⟨hpos, hcount, hlengths, hinside, htotal⟩⟩
  unfold admitBatch
  apply Decides.require_bind (fun h => (hsplit.mp h).1)
  intro hcount
  rcases @admitRanges_decides cap hvalid ranges 0 0 (Nat.zero_le _) with ⟨hrun, hfit⟩ | ⟨⟨error, hrun⟩, hfit⟩
  · rw [hrun]
    exact .inl ⟨rfl, hsplit.mpr ⟨hcount, hfit⟩⟩
  · rw [hrun]
    exact .inr ⟨⟨error, rfl⟩, fun h => hfit (hsplit.mp h).2⟩

end admission

end MemoryBatchCapability

/-! ## What a reply is -/

/-- The read answers the range at its place: the same memory, and two hexadecimal digits for each byte. -/
structure ReadOf (read : Json) (index : ℕ) (range : BatchRange) : Prop where
  index : read.get "index" = some (.nat index)
  memoryType : read.get "memory_type" = some (.str range.memoryType)
  address : read.get "address" = some (.nat range.address)
  length : read.get "length" = some (.nat range.length)
  payload : ∃ hex, read.get "hex" = some (.str hex) ∧ hex.toList.length = 2 * range.length ∧
    ∀ c ∈ hex.toList, isAsciiHexDigit c = true

/-- The reads are the ranges one by one, and the total is theirs. -/
structure Answers (reply : Json) (ranges : List BatchRange) (reads : List Json) : Prop where
  found : reply.get "reads" = some (.arr reads)
  count : reads.length = ranges.length
  each : ∀ (i : ℕ) read range, reads[i]? = some read → ranges[i]? = some range → ReadOf read i range
  total : reply.get "total_bytes" = some (.nat (ranges.map BatchRange.length).sum)

theorem bind_asU64_eq_some {o : Option Json} {n : ℕ} (h : o.bind Json.asU64 = some n) : o = some (.nat n) := by
  obtain ⟨v, hv, hn⟩ := Option.bind_eq_some_iff.mp h
  rw [hv, (Json.asU64_eq_some hn).1]

theorem bind_asStr_eq_some {o : Option Json} {s : String} (h : o.bind Json.asStr = some s) : o = some (.str s) := by
  obtain ⟨v, rfl, hs⟩ := Option.bind_eq_some_iff.mp h
  cases v with
  | str t => rw [Option.some.inj hs]
  | _ => simp [Json.asStr] at hs

theorem bind_asArray_eq_some {o : Option Json} {items : List Json} (h : o.bind Json.asArray = some items) :
    o = some (.arr items) := by
  obtain ⟨v, rfl, hitems⟩ := Option.bind_eq_some_iff.mp h
  cases v with
  | arr l => rw [Option.some.inj hitems]
  | _ => simp [Json.asArray] at hitems

theorem isAlphanum_of_isAsciiHexDigit {c : Char} (h : isAsciiHexDigit c = true) : c.isAlphanum = true := by
  simp only [isAsciiHexDigit, Bool.or_eq_true, Bool.and_eq_true, decide_eq_true_eq, Char.le_def,
    UInt32.le_iff_toNat_le] at h
  rcases h with (hdigit | hlower) | hupper
  · rw [Char.isAlphanum, hdigit, Bool.or_true]
  · exact isAlphanum_iff.mpr (.inl (.inr ⟨hlower.1, hlower.2.trans (by decide)⟩))
  · exact isAlphanum_iff.mpr (.inl (.inl ⟨hupper.1, hupper.2.trans (by decide)⟩))

theorem hexLen_eq_some {read : Json} {n : ℕ} (h : hexLen read = some n) :
    ∃ hex, read.get "hex" = some (.str hex) ∧ hex.toList.length = n ∧ ∀ c ∈ hex.toList, isAsciiHexDigit c = true := by
  obtain ⟨hex, hfilter, hlength⟩ := Option.map_eq_some_iff.mp h
  obtain ⟨hhex, hdigits⟩ := Option.filter_eq_some_iff.mp hfilter
  rw [List.all_eq_true] at hdigits
  refine ⟨hex, bind_asStr_eq_some hhex, ?_, hdigits⟩
  rw [← hlength, ← utf8Len_of_isAlphanum fun c hc => isAlphanum_of_isAsciiHexDigit (hdigits c hc),
    ← String.utf8ByteSize_ofList, String.ofList_toList]

theorem verifyRead_decides {total index : ℕ} {read : Json} {range : BatchRange}
    (hsmall : total + range.length < 2 ^ 63) :
    Decides (verifyRead total ((read, range), index))
      (Describes read index range ∧ hexLen read = some (range.length * 2)) (total + range.length) := by
  unfold verifyRead
  apply Decides.require_bind (fun h => h.1)
  intro hdescribes
  rw [show checkedMul range.length 2 = some (range.length * 2) from if_pos (by omega)]
  apply Decides.require_bind (fun h => h.2)
  intro hpayload
  rw [show checkedAdd total range.length = some (total + range.length) from if_pos (by omega)]
  exact .inl ⟨rfl, hdescribes, hpayload⟩

theorem readOf_of_describes {read : Json} {index : ℕ} {range : BatchRange} (hdescribes : Describes read index range)
    (hpayload : hexLen read = some (range.length * 2)) : ReadOf read index range := by
  obtain ⟨hindex, hmemory, haddress, hlength⟩ := hdescribes
  obtain ⟨hex, hhex, hcount, hall⟩ := hexLen_eq_some hpayload
  exact ⟨bind_asU64_eq_some hindex, bind_asStr_eq_some hmemory, bind_asU64_eq_some haddress,
    bind_asU64_eq_some hlength, hex, hhex, by omega, hall⟩

theorem verifyReads_cases {reads : List Json} {ranges : List BatchRange} {total index : ℕ}
    (hcount : reads.length = ranges.length) (hsmall : total + (ranges.map BatchRange.length).sum < 2 ^ 63) :
    (((reads.zip ranges).zipIdx index).foldlM verifyRead total = .ok (total + (ranges.map BatchRange.length).sum) ∧
        ∀ (i : ℕ) read range, reads[i]? = some read → ranges[i]? = some range → ReadOf read (index + i) range) ∨
      ∃ error, ((reads.zip ranges).zipIdx index).foldlM verifyRead total = .error (.refused error) := by
  induction reads generalizing ranges total index with
  | nil =>
    obtain rfl : ranges = [] := List.length_eq_zero_iff.mp hcount.symm
    exact .inl ⟨rfl, by simp⟩
  | cons read reads ih =>
    cases ranges with
    | nil => cases hcount
    | cons range ranges =>
      rw [List.map_cons, List.sum_cons] at hsmall ⊢
      rw [List.zip_cons_cons, List.zipIdx_cons, List.foldlM_cons]
      have hfirst : total + range.length < 2 ^ 63 := by omega
      rcases @verifyRead_decides total index read range hfirst
        with ⟨hrun, hdescribes, hpayload⟩ | ⟨⟨error, hrun⟩, -⟩
      · rw [hrun, ok_bind, ← Nat.add_assoc]
        have hnext : total + range.length + (ranges.map BatchRange.length).sum < 2 ^ 63 := by omega
        rcases @ih ranges _ (index + 1) (Nat.succ.inj hcount) hnext with ⟨hrest, heach⟩ | hrest
        · refine .inl ⟨hrest, fun i r g hr hg => ?_⟩
          cases i with
          | zero =>
            obtain rfl := Option.some.inj hr
            obtain rfl := Option.some.inj hg
            exact readOf_of_describes hdescribes hpayload
          | succ i =>
            have h := heach i r g hr hg
            rwa [Nat.add_assoc, Nat.add_comm 1 i] at h
        · exact .inr hrest
      · rw [hrun]
        exact .inr ⟨error, rfl⟩

section reply
variable {ranges : List BatchRange} (reply : Json) (expectedGeneration : Option String)

theorem verifyReply_no_overflow (hsmall : (ranges.map BatchRange.length).sum < 2 ^ 63) :
    ErrorsIn (· ≠ .overflow) (verifyReply ranges reply expectedGeneration) := by
  refine errorsIn_require_bind (fun _ => nofun) fun _ => ?_
  refine errorsIn_require_bind (fun _ => nofun) fun _ => ?_
  refine ErrorsIn.bind ?_ fun _ _ => ?_
  · intro error h
    cases hboundary : verifyBoundary (reply.get "boundary") expectedGeneration with
    | ok a =>
      rw [hboundary] at h
      cases h
    | error reason =>
      rw [hboundary] at h
      rw [← Except.error.inj h]
      exact nofun
  refine errorsIn_orError_bind (fun _ => nofun) fun reads _ => ?_
  refine errorsIn_require_bind (fun _ => nofun) fun hcount => ?_
  refine ErrorsIn.bind ?_ fun total _ => errorsIn_require fun _ => nofun
  intro error h
  have hsmall' : 0 + (ranges.map BatchRange.length).sum < 2 ^ 63 := by omega
  rcases @verifyReads_cases reads ranges 0 0 hcount hsmall' with ⟨hrun, -⟩ | ⟨refusal, hrun⟩
  · rw [hrun] at h
    cases h
  · rw [hrun] at h
    rw [← Except.error.inj h]
    exact nofun

theorem answers_of_verifyReply (hsmall : (ranges.map BatchRange.length).sum < 2 ^ 63)
    (h : verifyReply ranges reply expectedGeneration = .ok ()) : ∃ reads, Answers reply ranges reads := by
  rw [verifyReply, require_bind_eq_ok, require_bind_eq_ok, bind_eq_ok] at h
  obtain ⟨-, -, _, -, h⟩ := h
  obtain ⟨reads, hreads, h⟩ := orError_bind_eq_ok.mp h
  obtain ⟨hcount, h⟩ := require_bind_eq_ok.mp h
  obtain ⟨total, hrun, h⟩ := bind_eq_ok.mp h
  have htotal := bind_asU64_eq_some (require_eq_ok.mp h)
  have hsmall' : 0 + (ranges.map BatchRange.length).sum < 2 ^ 63 := by omega
  rcases @verifyReads_cases reads ranges 0 0 hcount hsmall' with ⟨hrun', heach⟩ | ⟨error, hrun'⟩
  · obtain rfl := Except.ok.inj (hrun.symm.trans hrun')
    rw [Nat.zero_add] at htotal
    refine ⟨reads, bind_asArray_eq_some hreads, hcount, fun i read range hread hrange => ?_, htotal⟩
    have hat := heach i read range hread hrange
    rwa [Nat.zero_add] at hat
  · cases hrun.symm.trans hrun'

end reply

/-- An accepted capability admits a request where every range lies in one of its windows and the limits are kept, and
no address makes a sum overflow. A reply to an admitted request is accepted only where its reads are the ranges one by
one, with all their bytes. -/
theorem admitBatch_and_verifyReply {value : Json} {memoryTypes : List String} {cap : MemoryBatchCapability}
    (h : MemoryBatchCapability.fromHello value memoryTypes = .ok cap) (ranges : List BatchRange) :
    (cap.admitBatch ranges = .ok () ↔ Admissible cap ranges) ∧ cap.admitBatch ranges ≠ .error .overflow ∧
      (cap.admitBatch ranges = .ok () → ∀ reply expectedGeneration,
        verifyReply ranges reply expectedGeneration ≠ .error .overflow ∧
          (verifyReply ranges reply expectedGeneration = .ok () → ∃ reads, Answers reply ranges reads)) := by
  have hvalid := MemoryBatchCapability.fromHello_valid h
  rcases MemoryBatchCapability.admitBatch_decides hvalid ranges with ⟨hrun, hadmissible⟩ | ⟨⟨error, hrun⟩, hnot⟩
  · have hsmall : (ranges.map BatchRange.length).sum < 2 ^ 63 := by
      have hsum := hadmissible.total
      have hlimit := hvalid.totalBytes
      have hcore : coreMaxTotalBytes = 65536 := rfl
      omega
    rw [hrun]
    refine ⟨⟨fun _ => hadmissible, fun _ => rfl⟩, nofun, fun _ reply expectedGeneration => ⟨?_, ?_⟩⟩
    · exact fun h => verifyReply_no_overflow reply expectedGeneration hsmall _ h rfl
    · exact answers_of_verifyReply reply expectedGeneration hsmall
  · rw [hrun]
    exact ⟨⟨nofun, fun hadmissible => absurd hadmissible hnot⟩, nofun, nofun⟩

def sampleHello : Json := .obj [("consistency", .str "frozen_boundary"), ("halt_kinds", .arr [.str "exec"]),
  ("max_range_bytes", .nat 8), ("max_ranges", .nat 2), ("max_total_bytes", .nat 8),
  ("windows", .arr [.obj [("address", .nat (2 ^ 64 - 16)), ("length", .nat 15), ("memory_type", .str "wram")]])]

def sampleCapability : MemoryBatchCapability := ⟨2, 8, 8, "frozen_boundary", ["exec"], [⟨"wram", 2 ^ 64 - 16, 15⟩]⟩

def sampleReply : Json := .obj [("boundary", .obj [("clocks", .arr []), ("memory_mapping_epoch", .str "m1"),
    ("runtime_generation", .str "g1"), ("stop_epoch", .str "s1")]), ("consistency", .str "frozen_boundary"),
  ("reads", .arr [.obj [("address", .nat (2 ^ 64 - 3)), ("hex", .str "00fF"), ("index", .nat 0), ("length", .nat 2),
    ("memory_type", .str "wram")]]), ("state", .str "frozen"), ("total_bytes", .nat 2)]

theorem admitBatch_and_verifyReply_sample : sampleCapability.admitBatch [⟨"wram", 2 ^ 64 - 3, 2⟩] = .ok () ∧
    Admissible sampleCapability [⟨"wram", 2 ^ 64 - 3, 2⟩] ∧
    verifyReply [⟨"wram", 2 ^ 64 - 3, 2⟩] sampleReply (some "g1") = .ok () ∧
    ∃ reads, Answers sampleReply [⟨"wram", 2 ^ 64 - 3, 2⟩] reads := by
  have hhello : MemoryBatchCapability.fromHello sampleHello ["wram"] = .ok sampleCapability := by decide +kernel
  have hpasses : sampleCapability.admitBatch [⟨"wram", 2 ^ 64 - 3, 2⟩] = .ok () := by decide +kernel
  have hverify : verifyReply [⟨"wram", 2 ^ 64 - 3, 2⟩] sampleReply (some "g1") = .ok () := by decide +kernel
  obtain ⟨hiff, -, hreplies⟩ := admitBatch_and_verifyReply hhello [⟨"wram", 2 ^ 64 - 3, 2⟩]
  exact ⟨hpasses, hiff.mp hpasses, hverify, (hreplies hpasses sampleReply (some "g1")).2 hverify⟩

end Emucap.Live.MemoryBatch
