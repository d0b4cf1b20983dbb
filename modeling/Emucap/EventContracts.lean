import Emucap.Bundle.RecordingManifest
import Emucap.Lib.Checked
import Mathlib.Data.List.Basic
import Mathlib.Data.String.Basic

/-!
# Event contracts

The registry of event classes (`event_contracts.rs`). A registry is built by `parse` only, which admits every
class once and with a payload contract that is well formed: these facts are fields of the structure. SHA-256 is
a parameter, given by its hexadecimal digest.
-/

namespace Emucap

open Emucap.Lib Emucap.Bundle

/-! ## Contracts -/

inductive PayloadValueType where
  | u64
  | bool
  deriving DecidableEq

inductive ClockOrder where
  | strict
  | nondecreasing
  deriving DecidableEq

/-- The tick may follow the previous one of its class. -/
def ClockOrder.admits : ClockOrder → ℕ → ℕ → Bool
  | .strict, previous, tick => previous < tick
  | .nondecreasing, previous, tick => previous ≤ tick

inductive FrameRelation where
  | tick
  | previousTick
  | independent
  deriving DecidableEq

inductive PayloadKind where
  | emptyObject
  | object
  deriving DecidableEq

structure PayloadField where
  path : String
  valueType : PayloadValueType
  min : Option ℕ
  max : Option ℕ
  deriving DecidableEq

def u64Max : ℕ := 2 ^ 64 - 1

def PayloadField.lower (field : PayloadField) : ℕ := field.min.getD 0

def PayloadField.upper (field : PayloadField) : ℕ := field.max.getD u64Max

structure EventContract where
  id : String
  revision : ℕ
  contract : String
  contractSha256 : String
  clockDomain : String
  clockOrder : ClockOrder
  frameRelation : FrameRelation
  payloadKind : PayloadKind
  payloadFields : List PayloadField
  deriving DecidableEq

inductive EventContractError where
  | unsupportedRegistry (registry : String)
  | duplicateClass (id : String)
  | invalidClassId (id : String)
  | invalidPayloadContract (id reason : String)
  | digestMismatch (id expected actual : String)
  | unknownClass (id : String)
  deriving DecidableEq

/-- Lower-case ASCII letters, digits and underscores, at least one. -/
def isContractToken (part : List Char) : Bool :=
  !part.isEmpty && part.all fun c => c.isLower || c.isDigit || c == '_'

namespace EventContract

def boundsValid (field : PayloadField) : Bool :=
  match field.valueType with
  | .u64 => field.lower ≤ field.upper
  | .bool => field.min.isNone && field.max.isNone

/-- The loop of `validate_payload_contract`, with the paths seen so far. -/
def validateFields (id : String) : List PayloadField → List String → Except EventContractError Unit
  | [], _ => .ok ()
  | field :: rest, seen => do
    require (field.path ≠ "" ∧ (field.path.toList.splitOn '.').all isContractToken ∧ field.path ∉ seen)
      (.invalidPayloadContract id ("invalid or duplicate field path " ++ field.path))
    require (boundsValid field) (.invalidPayloadContract id ("invalid bounds for " ++ field.path))
    validateFields id rest (field.path :: seen)

def validatePayloadContract (contract : EventContract) : Except EventContractError Unit := do
  require (¬ (contract.payloadKind = .emptyObject ∧ contract.payloadFields ≠ []))
    (.invalidPayloadContract contract.id "empty-object payload cannot declare fields")
  require (¬ (contract.payloadKind = .object ∧ contract.payloadFields = []))
    (.invalidPayloadContract contract.id "object payload requires declarative fields")
  validateFields contract.id contract.payloadFields []

end EventContract

/-! ## The registry -/

structure EventContractRegistry where
  revision : String
  classes : List EventContract
  unique : (classes.map EventContract.id).Nodup
  valid : ∀ c ∈ classes, c.validatePayloadContract = .ok ()

structure RegistryFile where
  registry : String
  classes : List EventContract
  deriving DecidableEq

namespace EventContractRegistry

section parse

variable (sha256 : List UInt8 → String)

/-- One class of the file, put where the order of the ids wants it. -/
def addClass (classes : List EventContract) (contract : EventContract) :
    Except EventContractError (List EventContract) := do
  require (isContractToken contract.id.toList) (.invalidClassId contract.id)
  contract.validatePayloadContract
  let actual := sha256 contract.contract.toUTF8.toList
  require (actual = contract.contractSha256) (.digestMismatch contract.id contract.contractSha256 actual)
  require (contract.id ∉ classes.map EventContract.id) (.duplicateClass contract.id)
  return classes.takeWhile (·.id < contract.id) ++ contract :: classes.dropWhile (·.id < contract.id)

def revisionMaterial (classes : List EventContract) : List UInt8 :=
  classes.flatMap fun c => c.id.toUTF8.toList ++ 0 :: c.contractSha256.toUTF8.toList ++ [0]

/-- The classes are those of a registry. -/
structure Admits (classes : List EventContract) : Prop where
  unique : (classes.map EventContract.id).Nodup
  valid : ∀ c ∈ classes, c.validatePayloadContract = .ok ()

theorem Admits.nil : Admits [] := ⟨List.nodup_nil, fun _ hc => (nomatch hc)⟩

variable {sha256} in
theorem Admits.addClass {classes classes' : List EventContract} {contract : EventContract} (h : Admits classes)
    (hadd : addClass sha256 classes contract = .ok classes') : Admits classes' := by
  unfold EventContractRegistry.addClass at hadd
  simp only [require_bind_eq_ok] at hadd
  obtain ⟨-, hadd⟩ := hadd
  obtain ⟨⟨⟩, hvalid, hadd⟩ := bind_eq_ok.mp hadd
  obtain ⟨-, hnew, hadd⟩ := by simpa only [require_bind_eq_ok] using hadd
  obtain rfl := Except.ok.inj hadd
  have hperm : (classes.takeWhile (·.id < contract.id) ++ contract :: classes.dropWhile (·.id < contract.id)).Perm
      (contract :: classes) := by
    refine List.perm_middle.trans ?_
    rw [List.takeWhile_append_dropWhile]
  refine ⟨(hperm.map _).nodup_iff.mpr (List.nodup_cons.mpr ⟨hnew, h.unique⟩), fun c hc => ?_⟩
  rcases List.mem_cons.mp (hperm.mem_iff.mp hc) with rfl | hc
  · exact hvalid
  · exact h.valid c hc

variable {sha256} in
theorem admits_foldlM {file classes classes' : List EventContract} (h : Admits classes)
    (hfold : file.foldlM (addClass sha256) classes = .ok classes') : Admits classes' := by
  induction file generalizing classes with
  | nil =>
    obtain rfl := Except.ok.inj hfold
    exact h
  | cons contract rest ih =>
    obtain ⟨next, hadd, hrest⟩ := bind_eq_ok.mp hfold
    exact ih (h.addClass hadd) hrest

def parse (file : RegistryFile) : Except EventContractError EventContractRegistry :=
  if file.registry ≠ "emucap-event-classes/v1" then .error (.unsupportedRegistry file.registry)
  else match h : file.classes.foldlM (addClass sha256) [] with
    | .error e => .error e
    | .ok classes =>
      have hadmits : Admits classes := admits_foldlM Admits.nil h
      .ok ⟨sha256 (revisionMaterial classes), classes, hadmits.unique, hadmits.valid⟩

end parse

def get (registry : EventContractRegistry) (id : String) : Except EventContractError EventContract :=
  orError (.unknownClass id) (registry.classes.find? fun c => c.id == id)

def validateIdentity (registry : EventContractRegistry) (identity : EventClassIdentity) :
    Except EventContractError EventContract := do
  let contract ← registry.get identity.id
  require (contract.contractSha256 = identity.contractSha256)
    (.digestMismatch identity.id contract.contractSha256 identity.contractSha256)
  return contract

theorem get_eq_ok_id {registry : EventContractRegistry} {id : String} {c : EventContract}
    (h : registry.get id = .ok c) : c.id = id := by
  simpa using List.find?_some (orError_eq_ok.mp h)

theorem validateIdentity_eq_ok {registry : EventContractRegistry} {identity : EventClassIdentity}
    {c : EventContract} : registry.validateIdentity identity = .ok c ↔
      registry.get identity.id = .ok c ∧ c.contractSha256 = identity.contractSha256 := by
  unfold validateIdentity
  rw [bind_eq_ok]
  constructor
  · rintro ⟨c', hget, h⟩
    obtain ⟨hdigest, h⟩ := require_bind_eq_ok.mp h
    obtain rfl := Except.ok.inj h
    exact ⟨hget, hdigest⟩
  · rintro ⟨hget, hdigest⟩
    exact ⟨c, hget, require_bind_eq_ok.mpr ⟨hdigest, rfl⟩⟩

end EventContractRegistry

end Emucap
