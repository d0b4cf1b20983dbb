import Emucap.Live.ControlSession
import Mathlib.Data.Option.Basic

/-!
# Requests, responses and link errors

The records both ends of a link exchange (`live/protocol.rs`), and the errors and call controls of
`live/link.rs`.
-/

namespace Emucap.Live

open Emucap.Lib

def protocolVersion : Nat := 1

structure Request where
  v : Nat
  id : Nat
  method : String
  params : Json
  deriving DecidableEq

namespace Request

def new (id : Nat) (method : String) (params : Json) : Request :=
  ⟨protocolVersion, id, method, params⟩

def toValue (r : Request) : Json :=
  .obj [("id", .nat r.id), ("method", .str r.method), ("params", r.params), ("v", .nat r.v)]

def fromValue (v : Json) : Option Request := do
  let version ← (← v.field 4 0 "v").asU64
  guard (version < 2 ^ 32)
  let id ← (← v.field 4 1 "id").asU64
  let method ← (← v.field 4 2 "method").asStr
  let params ← v.field 4 3 "params"
  some ⟨version, id, method, params⟩

def toLine (r : Request) : Line := .render r.toValue

theorem fromValue_params {v params : Json} {r : Request} (hv : v.get "params" = some params)
    (hr : fromValue v = some r) : r.params = params := by
  cases v with
  | obj fields =>
    have hfind : OrdMap.find? "params" fields = some params := hv
    simp only [fromValue, Json.field_obj, hfind, Option.bind_eq_bind,
      Option.bind_eq_some_iff] at hr
    obtain ⟨_, -, _, -, _, -, _, -, _, -, _, -, _, -, params', hparams, hr⟩ := hr
    cases hparams
    cases hr
    rfl
  | _ => cases hv

end Request

structure ProtocolError where
  kind : String
  message : String
  deriving DecidableEq

def ProtocolError.fromValue (v : Json) : Option ProtocolError := do
  let kind ← (← v.field 2 0 "kind").asStr
  let message ← match v.field 2 1 "message" with
    | none => some ""
    | some message => message.asStr
  some ⟨kind, message⟩

structure Response where
  id : Nat
  ok : Bool
  result : Option Json
  error : Option ProtocolError
  deriving DecidableEq

namespace Response

def fromValue (v : Json) : Option Response := do
  let id ← (← v.field 4 0 "id").asU64
  let ok ← (← v.field 4 1 "ok").asBool
  let error ← match Json.optional (v.field 4 3 "error") with
    | none => some none
    | some error => (ProtocolError.fromValue error).map some
  some ⟨id, ok, Json.optional (v.field 4 2 "result"), error⟩

def parse (line : Line) : Option Response := line.parse.bind fromValue

def status (r : Response) : Option String :=
  (r.result.bind (·.get "status")).bind Json.asStr

def isWorking (r : Response) : Bool := r.ok && r.status == some "working"

end Response

/-! ## Links -/

inductive LinkError where
  | notConnected
  | portBusy (addr : String)
  | busy
  | noSuchEmulator (names : List String)
  | ambiguous (names : List String)
  | timeout
  | cancelled
  | protocol (message : String)
  | emulator (kind message : String)
  | identityMismatch (expected : String) (actual : Option String)
  deriving DecidableEq

def LinkError.kind : LinkError → String
  | .notConnected => "not_connected"
  | .portBusy _ => "port_busy"
  | .busy => "busy"
  | .noSuchEmulator _ => "no_such_emulator"
  | .ambiguous _ => "ambiguous"
  | .timeout => "request_timeout"
  | .cancelled => "cancelled"
  | .protocol _ => "protocol_error"
  | .emulator _ _ => "emulator_error"
  | .identityMismatch _ _ => "identity_mismatch"

/-! ## Progress notices -/

inductive WorkingProgressPhase where
  | warming
  | aligning
  | recording
  deriving DecidableEq

structure WorkingProgress where
  captureId : String
  sequence : ℕ
  frame : ℕ
  frames : Option ℕ
  events : ℕ
  bytes : ℕ
  phase : Option WorkingProgressPhase
  deriving DecidableEq

namespace WorkingProgress

/-- The variant that a document names: a string, or an object with one member of no value. -/
def variantName : Json → Option String
  | .str name => some name
  | .obj [(name, .null)] => some name
  | _ => none

def phaseFromValue (v : Json) : Option WorkingProgressPhase :=
  match variantName v with
  | some "warming" => some .warming
  | some "aligning" => some .aligning
  | some "recording" => some .recording
  | _ => none

/-- A field that may be missing or `null`. -/
def optionalField {α : Type} (read : Json → Option α) (v : Option Json) : Option (Option α) :=
  match Json.optional v with
  | none => some none
  | some v => (read v).map some

def fromValue (v : Json) : Option (String × WorkingProgress) := do
  let status ← (← v.field 8 0 "status").asStr
  let captureId ← (← v.field 8 1 "capture_id").asStr
  let sequence ← (← v.field 8 2 "sequence").asU64
  let frame ← (← v.field 8 3 "frame").asU64
  let frames ← optionalField Json.asU64 (v.field 8 4 "frames")
  let events ← (← v.field 8 5 "events").asU64
  let bytes ← (← v.field 8 6 "bytes").asU64
  let phase ← optionalField phaseFromValue (v.field 8 7 "phase")
  some (status, ⟨captureId, sequence, frame, frames, events, bytes, phase⟩)

/-- `WorkingProgress::parse`. The decoder's own text stands in the error of a notice it refuses. -/
def parse (v : Json) : Except LinkError WorkingProgress :=
  match fromValue v with
  | none => .error (.protocol "invalid working progress")
  | some (status, progress) =>
    if status ≠ "working" ∨ progress.captureId = "" ∨ 96 < progress.captureId.utf8ByteSize then
      .error (.protocol "invalid recording working progress identity")
    else .ok progress

end WorkingProgress

/-! ## Call controls -/

structure AbortRequest where
  method : String
  params : Json
  deriving DecidableEq

/-- The parts of a call control that do not change while the call runs. Durations are milliseconds,
and the cancellation flag is read from the call's clock. -/
structure ProgressCallControl where
  abort : Option AbortRequest
  maxHostMs : Option Nat
  temporalStopMs : Option Nat
  temporalDeadline : Option Nat

end Emucap.Live
