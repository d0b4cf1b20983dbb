import Emucap.Live.Link
import Emucap.Live.Runtime

/-!
# Continuity state

The link record of one launch (`live/continuity_state.rs`). `LinkRecord.bounded` shortens the observations of an
oversized record; shortening a text inside a character panics, as `String::truncate` does.
-/

namespace Emucap.Live

open Emucap.Lib

/-! ## Records -/

structure EmulatorIdentity where
  system : Option String
  adapter : Option String
  build : Option String
  name : Option String
  sessionToken : Option String
  content : Option String
  launchId : Option String
  hostFeatures : List String
  mesenHostApi : Option ℕ
  hostBuild : Option Json
  deriving DecidableEq

inductive TransportState where
  | connected
  | stalled
  | disconnected
  deriving DecidableEq

inductive RuntimeBindingState where
  | bound
  | mismatched
  | unmanaged
  | unobserved
  deriving DecidableEq

structure RuntimeBinding where
  state : RuntimeBindingState
  currentLaunchId : Option String
  liveLaunchId : Option String
  reason : String
  deriving DecidableEq

instance : Inhabited RuntimeBinding :=
  ⟨⟨.unobserved, none, none, "no live adapter identity has been observed"⟩⟩

structure FailureObservation where
  active : Bool
  kind : String
  operation : String
  observedAtUnixMs : ℕ
  recoveredAtUnixMs : Option ℕ
  deriving DecidableEq

inductive TemporalState where
  | active
  | unverified
  deriving DecidableEq

structure TemporalOperation where
  key : OperationKey
  holder : ProcessIdentity
  controlSessionKey : Option String
  state : TemporalState
  deriving DecidableEq

structure LinkRecord where
  schemaVersion : ℕ
  launchId : String
  temporalOperation : Option TemporalOperation
  lease : Option LeaseRecord
  lastIdentity : Option EmulatorIdentity
  lastResponseUnixMs : Option ℕ
  lastMethod : Option String
  lastStatus : Option Json
  transportState : TransportState
  consecutiveTimeouts : ℕ
  lastFailure : Option FailureObservation
  truncated : Bool
  updatedAtUnixMs : ℕ
  deriving DecidableEq

/-! ## Shortening -/

def truncateChars : ℕ → List Char → Option (List Char)
  | _, [] => some []
  | n, c :: rest =>
    if n = 0 then some []
    else if c.utf8Size ≤ n then (truncateChars (n - c.utf8Size) rest).map (c :: ·)
    else none

/-- `String::truncate`, which panics inside a character. -/
def truncateText (n : ℕ) (s : String) : Option String := (truncateChars n s.toList).map String.ofList

def shorten {α : Type} (truncate : α → Option α) : Option α → Option (Option α)
  | none => some none
  | some a => (truncate a).map some

def truncateField (n : ℕ) : Option String → Option (Option String) := shorten (truncateText n)

namespace EmulatorIdentity

def withoutToken (i : EmulatorIdentity) : EmulatorIdentity := { i with sessionToken := none }

def truncate (i : EmulatorIdentity) : Option EmulatorIdentity := do
  let system ← truncateField 1024 i.system
  let adapter ← truncateField 1024 i.adapter
  let build ← truncateField 1024 i.build
  let name ← truncateField 1024 i.name
  let content ← truncateField 1024 i.content
  let launchId ← truncateField 1024 i.launchId
  some { i with system, adapter, build, name, content, launchId }

end EmulatorIdentity

def FailureObservation.truncate (f : FailureObservation) : Option FailureObservation := do
  let kind ← truncateText 128 f.kind
  let operation ← truncateText 128 f.operation
  some { f with kind, operation }

namespace LinkRecord

def new (launchId : String) (now : ℕ) : LinkRecord where
  schemaVersion := 1
  launchId := launchId
  temporalOperation := none
  lease := none
  lastIdentity := none
  lastResponseUnixMs := none
  lastMethod := none
  lastStatus := none
  transportState := .disconnected
  consecutiveTimeouts := 0
  lastFailure := none
  truncated := false
  updatedAtUnixMs := now

def fits (bytes : LinkRecord → Option ℕ) (r : LinkRecord) : Bool :=
  match bytes r with
  | none => false
  | some size => size ≤ maxCapsuleFileBytes

def truncatedStatus : Json :=
  .obj [("reason", .str "last_status exceeded runtime capsule limit"), ("truncated", .bool true)]

def bounded (bytes : LinkRecord → Option ℕ) (record : LinkRecord) : Option LinkRecord := do
  let record := { record with lastIdentity := record.lastIdentity.map EmulatorIdentity.withoutToken }
  if record.fits bytes then
    return record
  let lastIdentity ← shorten EmulatorIdentity.truncate record.lastIdentity
  let lastFailure ← shorten FailureObservation.truncate record.lastFailure
  let record := { record with truncated := true, lastStatus := some truncatedStatus, lastIdentity, lastFailure }
  if record.fits bytes then
    return record
  return { record with lastIdentity := none }

structure Keeps (r r' : LinkRecord) : Prop where
  launchId : r'.launchId = r.launchId
  temporalOperation : r'.temporalOperation = r.temporalOperation
  lease : r'.lease = r.lease

theorem bounded_keeps {bytes : LinkRecord → Option ℕ} {r r' : LinkRecord}
    (h : r.bounded bytes = some r') : r.Keeps r' := by
  unfold bounded at h
  simp only [Option.pure_def, Option.bind_eq_bind] at h
  split_ifs at h with hfits
  · obtain rfl := Option.some.inj h
    exact ⟨rfl, rfl, rfl⟩
  · obtain ⟨identity, -, h⟩ := Option.bind_eq_some_iff.mp h
    obtain ⟨failure, -, h⟩ := Option.bind_eq_some_iff.mp h
    split_ifs at h with hfits'
    · obtain rfl := Option.some.inj h
      exact ⟨rfl, rfl, rfl⟩
    · obtain rfl := Option.some.inj h
      exact ⟨rfl, rfl, rfl⟩

end LinkRecord

end Emucap.Live
