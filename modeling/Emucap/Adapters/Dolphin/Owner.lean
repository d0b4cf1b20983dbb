import Emucap.Live.Temporal.Owner

/-!
# Native ownership in Dolphin

`ProducerOwnership` of `EmuCapOwner.h`, the native counterpart of `live/temporal/owner.rs`. Whether the
parent is stopping is a flag beside the parent; it is left as it is when the parent goes and reset by
the next `Begin`. An out parameter is returned: `none` where the method does not write it.
-/

namespace Emucap.Adapters

open Emucap.Live Emucap.Live.Temporal

inductive OwnerResult where
  | ok
  | invalidIdentity
  | wrongAttachment
  | busy
  | notActive
  | retired
  deriving DecidableEq

end Emucap.Adapters

namespace Emucap.Adapters.Dolphin

open Emucap.Live Emucap.Live.Temporal

def ValidPart (s : String) : Prop := s ≠ "" ∧ s.utf8ByteSize ≤ 256

instance (s : String) : Decidable (ValidPart s) := inferInstanceAs (Decidable (_ ∧ _))

def KeyValid (k : OperationKey) : Prop :=
  ValidPart k.runtime ∧ ValidPart k.ownerId ∧ ValidPart k.operationId

instance (k : OperationKey) : Decidable (KeyValid k) := inferInstanceAs (Decidable (_ ∧ _))

def AttachmentValid (a : Attachment) : Prop :=
  ValidPart a.brokerInstance ∧ a.registration ≠ 0 ∧ a.session ≠ 0

instance (a : Attachment) : Decidable (AttachmentValid a) := inferInstanceAs (Decidable (_ ∧ _))

structure ProducerOwnership where
  runtime : String
  attachment : Option Attachment
  parent : Option CleanupPlan
  terminal : Option CleanupPlan
  stopping : Bool
  retired : Bool
  deriving DecidableEq

namespace ProducerOwnership

def new (runtime : String) : ProducerOwnership := ⟨runtime, none, none, none, false, false⟩

def attach (o : ProducerOwnership) (attachment : Attachment) : OwnerResult × ProducerOwnership :=
  if o.retired then (.retired, o)
  else if ¬ ValidPart o.runtime ∨ ¬ AttachmentValid attachment then (.invalidIdentity, o)
  else if o.attachment = some attachment then (.ok, o)
  else if o.parent.isSome ∨ o.attachment.isSome then (.busy, o)
  else (.ok, { o with terminal := none, attachment := some attachment })

def begin (o : ProducerOwnership) (attachment : Attachment) (key : OperationKey) :
    OwnerResult × ProducerOwnership :=
  if o.retired then (.retired, o)
  else if ¬ KeyValid key ∨ key.runtime ≠ o.runtime then (.invalidIdentity, o)
  else if o.attachment ≠ some attachment then (.wrongAttachment, o)
  else match o.parent with
    | some parent => (if parent.key = key ∧ o.stopping = false then .ok else .busy, o)
    | none =>
      if (o.terminal.any fun last => last.key = key) then (.notActive, o)
      else (.ok, { o with terminal := none, parent := some ⟨key, attachment, ∅, false⟩, stopping := false })

def authorizeUnscoped (o : ProducerOwnership) (attachment : Attachment) (observation : Bool) : OwnerResult :=
  if o.retired then .retired
  else if o.attachment ≠ some attachment then .wrongAttachment
  else if o.parent.isSome ∧ observation = false then .busy
  else .ok

def authorize (o : ProducerOwnership) (attachment : Attachment) (key : OperationKey) : OwnerResult :=
  if o.retired then .retired
  else if o.attachment ≠ some attachment then .wrongAttachment
  else if (o.parent.any fun parent => parent.key = key) ∧ o.stopping = false then .ok
  else .notActive

def effect (o : ProducerOwnership) (attachment : Attachment) (key : OperationKey)
    (inputPort : Option Nat) : OwnerResult × ProducerOwnership :=
  if o.authorize attachment key ≠ .ok then (o.authorize attachment key, o)
  else (.ok, { o with
    parent := o.parent.map fun parent => { parent with
      inputPorts := match inputPort with
        | some port => insert port parent.inputPorts
        | none => parent.inputPorts
      effectsStarted := true } })

def startCleanup (o : ProducerOwnership) (attachment : Attachment) (key : OperationKey) :
    (OwnerResult × Option CleanupPlan) × ProducerOwnership :=
  if o.retired then ((.retired, none), o)
  else match o.parent with
    | none => ((.notActive, none), o)
    | some parent =>
      if parent.key ≠ key ∨ parent.attachment ≠ attachment then ((.notActive, none), o)
      else ((.ok, some parent), { o with stopping := true })

def detach (o : ProducerOwnership) (attachment : Attachment) :
    (OwnerResult × Option CleanupPlan) × ProducerOwnership :=
  if o.retired then ((.retired, none), o)
  else if o.attachment ≠ some attachment then ((.ok, none), o)
  else ((.ok, o.parent), { o with
    attachment := none
    terminal := none
    stopping := if o.parent.isSome then true else o.stopping })

def finishCleanup (o : ProducerOwnership) (plan : CleanupPlan) (evidence : CleanupEvidence) :
    OwnerResult × ProducerOwnership :=
  if o.retired then (.retired, o)
  else if o.parent = none ∨ o.stopping = false ∨ o.parent ≠ some plan then (.notActive, o)
  else if (plan.effectsStarted = true ∧ evidence.stopVerified = false) ∨
      evidence.releasedPorts ≠ plan.inputPorts then
    (.retired, { o with retired := true })
  else (.ok, { o with
    terminal := if o.attachment = some plan.attachment then some plan else o.terminal
    parent := none })

/-- `Terminal`. -/
def terminalFor (o : ProducerOwnership) (attachment : Attachment) (key : OperationKey) :
    Option CleanupPlan :=
  o.terminal.filter fun last => last.attachment = attachment ∧ last.key = key

def activeKey (o : ProducerOwnership) : Option OperationKey := o.parent.map (·.key)

end ProducerOwnership

end Emucap.Adapters.Dolphin
