import Emucap.Lib.Json

/-!
# Control sessions

The transport lifecycle a producer opts in to (`live/control_session.rs`) and the operation keys of
`live/reconnect/cancellation.rs`. The readers refuse unknown members and accept the positional array form.
-/

namespace Emucap.Live

open Emucap.Lib

def eventField : String := "_control_session"

def attachmentField : String := "_control_attachment"

def lifecycleField : String := "control_session_lifecycle"

/-! ## Attachments -/

structure Attachment where
  brokerInstance : String
  registration : Nat
  session : Nat
  deriving DecidableEq, Inhabited

namespace Attachment

def Valid (a : Attachment) : Prop :=
  a.brokerInstance ≠ "" ∧ a.brokerInstance.utf8ByteSize ≤ 256 ∧ a.registration ≠ 0 ∧ a.session ≠ 0

instance (a : Attachment) : Decidable a.Valid := inferInstanceAs (Decidable (_ ∧ _))

def validate (a : Attachment) : Except String Unit :=
  if a.Valid then .ok () else .error "invalid control attachment"

def toValue (a : Attachment) : Json :=
  .obj [("broker_instance", .str a.brokerInstance), ("registration", .nat a.registration),
    ("session", .nat a.session)]

def fromValue (v : Json) : Option Attachment := do
  guard (v.onlyFields ["broker_instance", "registration", "session"])
  let brokerInstance ← (← v.field 3 0 "broker_instance").asStr
  let registration ← (← v.field 3 1 "registration").asU64
  let session ← (← v.field 3 2 "session").asU64
  some ⟨brokerInstance, registration, session⟩

theorem fromValue_toValue {a : Attachment} (hr : a.registration < 2 ^ 64)
    (hs : a.session < 2 ^ 64) : fromValue a.toValue = some a := by
  simp [fromValue, toValue, Json.onlyFields, OrdMap.find?, Json.asU64_nat hr,
    Json.asU64_nat hs, guard]

end Attachment

/-! ## Lifecycle events -/

inductive EventKind where
  | attach
  | detach
  deriving DecidableEq

namespace EventKind

def toValue : EventKind → Json
  | .attach => .str "attach"
  | .detach => .str "detach"

def fromValue : Json → Option EventKind
  | .str "attach" | .obj [("attach", .null)] => some .attach
  | .str "detach" | .obj [("detach", .null)] => some .detach
  | _ => none

@[simp] theorem fromValue_toValue (k : EventKind) : fromValue k.toValue = some k := by
  cases k <;> rfl

end EventKind

structure SessionEvent where
  kind : EventKind
  runtime : String
  attachment : Attachment
  deriving DecidableEq

inductive EnvelopeError where
  | unrelatedFields
  | malformed
  | attachment (message : String)
  | runtime
  deriving DecidableEq

namespace SessionEvent

def toValue (e : SessionEvent) : Json :=
  .obj [("attachment", e.attachment.toValue), ("kind", e.kind.toValue), ("runtime", .str e.runtime)]

def fromValue (v : Json) : Option SessionEvent := do
  guard (v.onlyFields ["kind", "runtime", "attachment"])
  let kind ← EventKind.fromValue (← v.field 3 0 "kind")
  let runtime ← (← v.field 3 1 "runtime").asStr
  let attachment ← Attachment.fromValue (← v.field 3 2 "attachment")
  some ⟨kind, runtime, attachment⟩

def envelope (e : SessionEvent) : Json := .obj [(eventField, e.toValue)]

def fromEnvelope (value : Json) : Except EnvelopeError (Option SessionEvent) :=
  match value.get eventField with
  | none => .ok none
  | some event =>
    if (value.asObject.map List.length) ≠ some 1 then .error .unrelatedFields
    else match fromValue event with
      | none => .error .malformed
      | some event =>
        match event.attachment.validate with
        | .error message => .error (.attachment message)
        | .ok () =>
          if event.runtime = "" ∨ 256 < event.runtime.utf8ByteSize then .error .runtime
          else .ok (some event)

theorem fromValue_toValue {e : SessionEvent} (hr : e.attachment.registration < 2 ^ 64)
    (hs : e.attachment.session < 2 ^ 64) : fromValue e.toValue = some e := by
  simp [fromValue, toValue, Json.onlyFields, OrdMap.find?, guard,
    Attachment.fromValue_toValue hr hs]

theorem fromEnvelope_envelope {e : SessionEvent} (hr : e.attachment.registration < 2 ^ 64)
    (hs : e.attachment.session < 2 ^ 64) (ha : e.attachment.Valid) (hne : e.runtime ≠ "")
    (hlen : e.runtime.utf8ByteSize ≤ 256) : fromEnvelope e.envelope = .ok (some e) := by
  have hlen' : ¬ 256 < e.runtime.utf8ByteSize := by omega
  simp [fromEnvelope, envelope, OrdMap.find?, Json.asObject, fromValue_toValue hr hs,
    Attachment.validate, ha, hne, hlen']

end SessionEvent

/-- The runtime a producer's hello opts in with; `none` is the legacy transport. -/
def advertisedRuntime (hello : Json) : Except String (Option String) :=
  match hello.get lifecycleField with
  | none => .ok none
  | some (.bool true) =>
    match (hello.get "launch_id").bind Json.asStr with
    | some s =>
      if s ≠ "" ∧ s.utf8ByteSize ≤ 256 then .ok (some s)
      else .error "control lifecycle requires a runtime identity"
    | none => .error "control lifecycle requires a runtime identity"
  | some _ => .error "invalid control lifecycle advertisement"

theorem advertisedRuntime_bounds {hello : Json} {rt : String}
    (h : advertisedRuntime hello = .ok (some rt)) : rt ≠ "" ∧ rt.utf8ByteSize ≤ 256 := by
  unfold advertisedRuntime at h
  split at h
  · cases h
  · split at h
    · split_ifs at h with hs
      cases h
      exact hs
    · cases h
  · cases h

def hasReservedFields (value : Json) : Bool :=
  (value.get eventField).isSome
    || (value.get attachmentField).isSome
    || (value.get "method").bind Json.asStr == some eventField
    || (value.get "params").any fun params =>
      (params.get eventField).isSome || (params.get attachmentField).isSome

/-! ## Operation keys -/

structure OperationKey where
  runtime : String
  ownerId : String
  operationId : String
  deriving DecidableEq, Inhabited

namespace OperationKey

def Valid (k : OperationKey) : Prop :=
  ∀ value ∈ [k.runtime, k.ownerId, k.operationId], value ≠ "" ∧ value.utf8ByteSize ≤ 256

instance (k : OperationKey) : Decidable k.Valid := inferInstanceAs (Decidable (∀ _ ∈ _, _))

def validate (k : OperationKey) : Except String Unit :=
  if k.Valid then .ok () else .error "invalid operation identity"

def fromValue (v : Json) : Option OperationKey := do
  guard (v.onlyFields ["runtime", "owner_id", "operation_id"])
  let runtime ← (← v.field 3 0 "runtime").asStr
  let ownerId ← (← v.field 3 1 "owner_id").asStr
  let operationId ← (← v.field 3 2 "operation_id").asStr
  some ⟨runtime, ownerId, operationId⟩

def toValue (k : OperationKey) : Json :=
  .obj [("operation_id", .str k.operationId), ("owner_id", .str k.ownerId),
    ("runtime", .str k.runtime)]

end OperationKey

end Emucap.Live
