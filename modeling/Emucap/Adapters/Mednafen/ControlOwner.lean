import Emucap.Adapters.Dolphin.Owner

/-!
# Native ownership in Mednafen

`Ownership` of `emucap_control_owner.h`, with the identities of `emucap_control_identity.h`. Unlike the
owner in Rust it keeps `stopping_` beside the parent, refuses an identity that contains a NUL, and drops
the terminal plan when it retires.
-/

namespace Emucap.Adapters.Mednafen

open Emucap.Live Emucap.Live.Temporal

def ValidIdentityPart (value : String) : Prop :=
  value ≠ "" ∧ value.utf8ByteSize ≤ 256 ∧ '\x00' ∉ value.toList

instance (value : String) : Decidable (ValidIdentityPart value) := inferInstanceAs (Decidable (_ ∧ _))

def KeyValid (k : OperationKey) : Prop :=
  ValidIdentityPart k.runtime ∧ ValidIdentityPart k.ownerId ∧ ValidIdentityPart k.operationId

instance (k : OperationKey) : Decidable (KeyValid k) := inferInstanceAs (Decidable (_ ∧ _))

def AttachmentValid (a : Attachment) : Prop :=
  ValidIdentityPart a.brokerInstance ∧ a.registration ≠ 0 ∧ a.session ≠ 0

instance (a : Attachment) : Decidable (AttachmentValid a) := inferInstanceAs (Decidable (_ ∧ _))

structure Ownership where
  runtime : String
  attachment : Option Attachment
  parent : Option CleanupPlan
  terminal : Option CleanupPlan
  stopping : Bool
  retired : Bool
  deriving DecidableEq

namespace Ownership

def new (runtime : String) : Ownership := ⟨runtime, none, none, none, false, false⟩

def Attached (o : Ownership) (attachment : Attachment) : Prop := o.attachment = some attachment

instance (o : Ownership) (attachment : Attachment) : Decidable (o.Attached attachment) :=
  inferInstanceAs (Decidable (_ = _))

def attach (o : Ownership) (attachment : Attachment) : OwnerResult × Ownership :=
  if o.retired then (.retired, o)
  else if ¬ ValidIdentityPart o.runtime ∨ ¬ AttachmentValid attachment then (.invalidIdentity, o)
  else if o.Attached attachment then (.ok, o)
  else if o.parent.isSome ∨ o.attachment.isSome then (.busy, o)
  else (.ok, { o with terminal := none, attachment := some attachment })

def begin (o : Ownership) (attachment : Attachment) (key : OperationKey) : OwnerResult × Ownership :=
  if o.retired then (.retired, o)
  else if ¬ KeyValid key ∨ key.runtime ≠ o.runtime then (.invalidIdentity, o)
  else if ¬ o.Attached attachment then (.wrongAttachment, o)
  else match o.parent with
    | some parent => (if parent.key = key ∧ o.stopping = false then .ok else .busy, o)
    | none =>
      if (o.terminal.any fun last => last.key = key) then (.notActive, o)
      else (.ok, { o with terminal := none, parent := some ⟨key, attachment, ∅, false⟩, stopping := false })

def authorizeUnscoped (o : Ownership) (attachment : Attachment) (observation : Bool) : OwnerResult :=
  if o.retired then .retired
  else if ¬ o.Attached attachment then .wrongAttachment
  else if o.parent.isSome ∧ observation = false then .busy
  else .ok

def authorize (o : Ownership) (attachment : Attachment) (key : OperationKey) : OwnerResult :=
  if o.retired then .retired
  else if ¬ o.Attached attachment then .wrongAttachment
  else if (o.parent.any fun parent => parent.key = key) ∧ o.stopping = false then .ok
  else .notActive

def effect (o : Ownership) (attachment : Attachment) (key : OperationKey) : OwnerResult × Ownership :=
  if o.authorize attachment key = .ok then
    (.ok, { o with parent := o.parent.map fun parent => { parent with effectsStarted := true } })
  else (o.authorize attachment key, o)

def inputAttempt (o : Ownership) (attachment : Attachment) (key : OperationKey) (port : Nat) :
    OwnerResult × Ownership :=
  if o.authorize attachment key ≠ .ok then (o.authorize attachment key, o)
  else (.ok, { o with
    parent := o.parent.map fun parent => { parent with
      inputPorts := insert port parent.inputPorts
      effectsStarted := true } })

def startCleanup (o : Ownership) (attachment : Attachment) (key : OperationKey) :
    (OwnerResult × Option CleanupPlan) × Ownership :=
  if o.retired then ((.retired, none), o)
  else match o.parent with
    | none => ((.notActive, none), o)
    | some parent =>
      if parent.key ≠ key ∨ parent.attachment ≠ attachment then ((.notActive, none), o)
      else ((.ok, some parent), { o with stopping := true })

def detach (o : Ownership) (attachment : Attachment) :
    (OwnerResult × Option CleanupPlan) × Ownership :=
  if o.retired then ((.retired, none), o)
  else if ¬ o.Attached attachment then ((.ok, none), o)
  else ((.ok, o.parent), { o with
    attachment := none
    terminal := none
    stopping := if o.parent.isSome then true else o.stopping })

def retire (o : Ownership) : Ownership := { o with retired := true, terminal := none }

def finishCleanup (o : Ownership) (plan : CleanupPlan) (evidence : CleanupEvidence) :
    OwnerResult × Ownership :=
  if o.retired then (.retired, o)
  else if o.parent = none ∨ o.stopping = false ∨ o.parent ≠ some plan then (.notActive, o)
  else if (plan.effectsStarted = true ∧ evidence.stopVerified = false) ∨
      evidence.releasedPorts ≠ plan.inputPorts then
    (.retired, o.retire)
  else (.ok, { o with
    terminal := if o.Attached plan.attachment then o.parent else o.terminal
    parent := none
    stopping := false })

/-- `Terminal`. -/
def terminalFor (o : Ownership) (attachment : Attachment) (key : OperationKey) : Option CleanupPlan :=
  if o.retired then none
  else o.terminal.filter fun last => last.attachment = attachment ∧ last.key = key

def activeKey (o : Ownership) : Option OperationKey := o.parent.map (·.key)

end Ownership

end Emucap.Adapters.Mednafen
