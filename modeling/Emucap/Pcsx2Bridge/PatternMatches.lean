import Emucap.Lib.Json
import Emucap.NumParse
import Emucap.Pcsx2Bridge.PineSocket

/-!
# The search for a pattern

`find_pattern` and `pattern_matches` of `memory.rs`. What ends at a long start of the pattern ends at a shorter one
just where the long one does, so falling back passes over nothing. Equality need not be reflexive.
-/

namespace Emucap.Pcsx2Bridge.PatternMatches

open Emucap.Lib Emucap.NumParse

variable {α σ : Type} [BEq α] (pattern : List α)

/-- The inner loop, for at most the given number of rounds; none where an index is out of bounds. -/
def fallBack (table : List ℕ) (value : α) : ℕ → ℕ → Option ℕ
  | 0, _ => none
  | rounds + 1, matched => do
    if matched = 0 then return 0
    if value == (← pattern[matched]?) then return matched
    fallBack table value rounds (← table[matched - 1]?)

def advance (table : List ℕ) (value : α) (matched : ℕ) : Option ℕ := do
  let matched ← fallBack pattern table value (matched + 1) matched
  return if value == (← pattern[matched]?) then matched + 1 else matched

/-- What was read, the last value first, ends in the first `k` values of the pattern. -/
def ends : List α → ℕ → Bool
  | _, 0 => true
  | [], _ + 1 => false
  | value :: read, k + 1 => pattern[k]?.any (value == ·) && ends read k

/-- The first values of the pattern, the last one first. -/
abbrev start (k : ℕ) : List α := (pattern.take k).reverse

variable {pattern}

section
variable [PartialEquivBEq α] {table read : List _} {n k : ℕ} {value : α}

end

/-! ## The naive search -/

def hexText (n : ℕ) : String := "0x" ++ String.ofList (Nat.toDigits 16 n)

structure PatternRequest where
  pattern : List UInt8
  start : ℕ
  length : ℕ
  truncatedScan : Bool
  maxMatches : ℕ
  align : ℕ

/-- The reply, without the constant `memory_type`. -/
structure PatternReply where
  start : ℕ
  scanned : ℕ
  found : List ℕ
  count : ℕ
  truncated : Bool
  truncatedScan : Bool
  truncatedMatches : Bool

section
-- how the errors of other code are displayed, and what the transport does
variable (numText : NumError → String) (display : Pcsx2BridgeError → String)
  (emulatorState : EStateM Pcsx2BridgeError σ String)
  (command : UInt8 → List UInt8 → EStateM Pcsx2BridgeError σ (List UInt8))

def optionalNum (params : Json) (name : String) : Except Pcsx2BridgeError (Option ℕ) :=
  match params.get name with
  | none | some .null => .ok none
  | some (.nat n) => (orError (.badParams (name ++ " must be a non-negative integer")) (Json.nat n).asU64).map some
  | some (.neg _) | some (.float _) => .error (.badParams (name ++ " must be a non-negative integer"))
  | some (.str raw) =>
    ((parseNumStr raw.toList).mapError fun e => .badParams (name ++ ": " ++ numText e)).map some
  | some _ => .error (.badParams (name ++ " must be an integer or hexadecimal string"))

def finishWithCleanup {β : Type} (operation : Except Pcsx2BridgeError β)
    (cleanup : Except Pcsx2BridgeError (List UInt8)) (context : String) : Except Pcsx2BridgeError β :=
  match operation, cleanup with
  | .ok value, .ok _ => .ok value
  | .error error, .ok _ => .error error
  | .ok _, .error cleanup =>
    .error (.emulator (context ++ " failed after the operation completed: " ++ display cleanup))
  | .error operation, .error cleanup =>
    .error (.emulator (display operation ++ "; " ++ context ++ " also failed: " ++ display cleanup))

/-- The visitor of `find_pattern`. -/
def collect (request : PatternRequest) (relative : ℕ) : List ℕ × Bool → (List ℕ × Bool) × Bool
  | (found, truncated) =>
    if relative % request.align ≠ 0 then ((found, truncated), true)
    else if request.maxMatches ≤ found.length then ((found, true), false)
    else ((found ++ [request.start + relative], truncated), true)

def PatternRequest.reply (request : PatternRequest) (scanned : ℕ) (found : List ℕ) (truncatedMatches : Bool) :
    PatternReply :=
  ⟨request.start, scanned, found, found.length, request.truncatedScan || truncatedMatches, request.truncatedScan,
    truncatedMatches⟩

end

section
variable {display : Pcsx2BridgeError → String} {emulatorState : EStateM Pcsx2BridgeError σ String}
  {command : UInt8 → List UInt8 → EStateM Pcsx2BridgeError σ (List UInt8)}

end

end Emucap.Pcsx2Bridge.PatternMatches
