import Emucap.Lib.Checked
import Emucap.Lib.Hex
import Emucap.Lib.JsonText
import Emucap.Lib.Sha256

/-!
# Observations of a frozen state

`observe_hash` (`track/observe.rs`) of the state, and the part of `capture_terminal_state`
(`live/recording_snapshot.rs`) between its two checks of the boundary. A state is compared by the hash of its canonical
text, and the same text is what a recording keeps of its terminal state. How the link answers is left open.
-/

namespace Emucap.Track

open Emucap.Lib

structure ObserveOutcome where
  kindUsed : String
  sha256 : String
  byteLen : ℕ
  deriving DecidableEq

inductive ObserveError where
  /-- The adapter does not offer the method that the observation needs. -/
  | unsupported (method : String)
  | link (message : String)
  deriving DecidableEq

def sha256Hex (bytes : List UInt8) : String := String.ofList (encodeHex (Sha256.sha256 bytes))

/-- The link as an observation sees it. -/
structure Observed where
  methods : List String
  call : String → Json → Except String Json

section observe
variable (floatText : UInt64 → List Char)

/-- `canonical_json`, with the bytes that are hashed and kept. -/
def canonicalJson (v : Json) : List UInt8 := utf8 (String.ofList (v.canonical floatText))

def outcome (kindUsed : String) (bytes : List UInt8) : ObserveOutcome := ⟨kindUsed, sha256Hex bytes, bytes.length⟩

/-- The state of an answer: the member of that name, or the whole answer. -/
def observedState (r : Json) : Json := (r.get "state").getD r

def observeState (link : Observed) : Except ObserveError ObserveOutcome := do
  require ("get_state" ∈ link.methods) (.unsupported "get_state")
  let r ← (link.call "get_state" (.obj [])).mapError .link
  return outcome "state" (canonicalJson floatText (observedState r))

/-- The group of a key: what stands before its first dot or bracket. -/
def keyGroup (key : String) : String := String.ofList (key.toList.takeWhile fun c => c != '.' && c != '[')

/-- The member that a recording keeps of the terminal state, from the answer of the link to `get_state`. -/
def capturedState (groups : List String) (maxBytes : ℕ) (result : Json) : Except String (List UInt8) := do
  let state ← orError "terminal state query returned no state payload" (result.get "state")
  let object ← orError "terminal state query returned an empty non-object" (state.asObject.filter (· ≠ []))
  require (∀ field ∈ object, keyGroup field.1 ∈ groups)
    "terminal state query returned fields outside the advertised profile"
  let bytes := canonicalJson floatText state
  require (bytes.length ≤ maxBytes) s!"terminal state exceeds the advertised {maxBytes} byte bound"
  return bytes

end observe

end Emucap.Track
