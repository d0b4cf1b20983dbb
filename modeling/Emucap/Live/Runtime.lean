import Emucap.PathSafety

/-!
# The runtime store

The durable records of one port (`live/runtime.rs`). A record is replaced under a file lock, so one update is one
step; a replacement may be reported as failed after it took place (`Publish.unconfirmed`).
-/

namespace Emucap.Live

/-! ## I/O errors -/

inductive IoErrorKind where
  | notFound
  | permissionDenied
  | wouldBlock
  | invalidInput
  | invalidData
  | fileTooLarge
  | other
  deriving DecidableEq

structure IoError where
  kind : IoErrorKind
  message : String
  deriving DecidableEq

/-! ## Records -/

structure ProcessIdentity where
  pid : ℕ
  startIdentity : Option String
  deriving DecidableEq

inductive ProcessState where
  | alive
  | exited
  | unknown
  deriving DecidableEq

structure CurrentManifest where
  schemaVersion : ℕ
  launchId : String
  port : ℕ
  adapter : String
  system : String
  content : String
  emulator : ProcessIdentity
  deriving DecidableEq

structure LeaseRecord where
  controlSessionKey : Option String
  holder : ProcessIdentity
  acquiredAtUnixMs : ℕ
  refreshedAtUnixMs : ℕ
  deriving DecidableEq

inductive LeaseState where
  | held
  | available
  | occupied
  | unknown
  deriving DecidableEq

structure LeaseView where
  state : LeaseState
  holderPid : Option ℕ
  deriving DecidableEq

def LeaseView.unknown : LeaseView := ⟨.unknown, none⟩

def schemaVersion : ℕ := 1

def maxCapsuleFileBytes : ℕ := 128 * 1024

def validateLaunchId (launchId : String) : Except IoError Unit :=
  if "launch-".toList.isPrefixOf launchId.toList && isHyphenatedAsciiId launchId 128 then .ok ()
  else .error ⟨.invalidData, "invalid runtime launch_id"⟩

/-! ## Reading -/

/-- `read_current`, from what the file of this port decodes to. -/
def RuntimeStore.readCurrent (port : ℕ) (file : Except IoError (Option CurrentManifest)) :
    Except IoError (Option CurrentManifest) := do
  match ← file with
  | none => pure none
  | some current =>
    validateLaunchId current.launchId
    if current.schemaVersion ≠ schemaVersion ∨ current.port ≠ port then
      throw ⟨.invalidData, "runtime current manifest schema/port mismatch"⟩
    pure (some current)

/-! ## Updating under a lock -/

/-- How the replacement of a file ends. -/
inductive Publish where
  | stored
  | refused (e : IoError)
  | unconfirmed (e : IoError)
  deriving DecidableEq

/-- What the file system makes of one locked update: the lock, the read, the replacement. -/
structure Locked where
  lock : Except IoError Unit
  read : Except IoError Unit
  publish : Publish

/-- The replacement is not reported as failed after it took place. -/
def Locked.atomic (l : Locked) : Prop := ∀ e, l.publish ≠ .unconfirmed e

section update

variable {T : Type} (bytes : T → Option ℕ)

/-- `write_atomic_json`: the record as bytes, at most `maxCapsuleFileBytes` of them. -/
def writeAtomicJson (publish : Publish) (next : T) (cell : Option T) : Except IoError Unit × Option T :=
  match bytes next with
  | none => (.error ⟨.invalidData, "record cannot be encoded"⟩, cell)
  | some size =>
    if maxCapsuleFileBytes < size then
      (.error ⟨.fileTooLarge, "runtime capsule file exceeds 131072 bytes"⟩, cell)
    else match publish with
      | .stored => (.ok (), some next)
      | .refused e => (.error e, cell)
      | .unconfirmed e => (.error e, some next)

/-- The locked update of one record. No result means that `update` panicked: the lock is dropped with the
file handle and nothing is written. -/
def updateJson (locked : Locked) (update : Option T → Option (Except IoError T)) (cell : Option T) :
    Option (Except IoError T) × Option T :=
  match locked.lock, locked.read with
  | .error e, _ => (some (.error e), cell)
  | .ok (), .error e => (some (.error e), cell)
  | .ok (), .ok () =>
    match update cell with
    | none => (none, cell)
    | some (.error e) => (some (.error e), cell)
    | some (.ok next) =>
      match writeAtomicJson bytes locked.publish next cell with
      | (.ok (), cell') => (some (.ok next), cell')
      | (.error e, cell') => (some (.error e), cell')

theorem writeAtomicJson_cases (publish : Publish) (next : T) (cell : Option T) :
    (∃ e, writeAtomicJson bytes publish next cell = (.error e, cell)) ∨
    (publish = .stored ∧ writeAtomicJson bytes publish next cell = (.ok (), some next)) ∨
    (∃ e, publish = .unconfirmed e ∧ writeAtomicJson bytes publish next cell = (.error e, some next)) := by
  unfold writeAtomicJson
  rcases bytes next with _ | size
  · exact .inl ⟨_, rfl⟩
  · simp only
    split_ifs with hsize
    · exact .inl ⟨_, rfl⟩
    · cases publish with
      | stored => exact .inr (.inl ⟨rfl, rfl⟩)
      | refused e => exact .inl ⟨e, rfl⟩
      | unconfirmed e => exact .inr (.inr ⟨e, rfl, rfl⟩)

/-- What one locked update can do: nothing, with an error or a panic; store what the update made of the
record, and return it; or store it and report an error all the same. -/
theorem updateJson_cases (locked : Locked) (update : Option T → Option (Except IoError T)) (cell : Option T) :
    (∃ e, updateJson bytes locked update cell = (some (.error e), cell)) ∨
    updateJson bytes locked update cell = (none, cell) ∨
    (∃ next, update cell = some (.ok next) ∧
      updateJson bytes locked update cell = (some (.ok next), some next)) ∨
    (∃ next e, update cell = some (.ok next) ∧ ¬ locked.atomic ∧
      updateJson bytes locked update cell = (some (.error e), some next)) := by
  unfold updateJson
  rcases locked.lock with e | ⟨⟩
  · exact .inl ⟨e, rfl⟩
  rcases locked.read with e | ⟨⟩
  · exact .inl ⟨e, rfl⟩
  rcases update cell with _ | e | next
  · exact .inr (.inl rfl)
  · exact .inl ⟨e, rfl⟩
  rcases writeAtomicJson_cases bytes locked.publish next cell with ⟨e, h⟩ | ⟨-, h⟩ | ⟨e, hp, h⟩
  · exact .inl ⟨e, by simp only [h]⟩
  · exact .inr (.inr (.inl ⟨next, rfl, by simp only [h]⟩))
  · exact .inr (.inr (.inr ⟨next, e, rfl, fun hatomic => hatomic e hp, by simp only [h]⟩))

end update

end Emucap.Live
