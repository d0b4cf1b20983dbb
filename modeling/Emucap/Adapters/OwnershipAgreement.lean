import Emucap.Adapters.Mednafen.ControlOwner
import Emucap.Lib.Transducer

/-!
# The three owners answer alike

The owner in Rust (`live/temporal/owner.rs`) and the native ones of Mednafen and Dolphin are driven by the same calls
and compared on everything a caller can observe after each of them. `Mirrors` ties the owner in Rust to the one of
Mednafen, and `Follows` the two native owners, which differ in the flag an absent parent leaves behind.
-/

namespace Emucap.Adapters

open Emucap.Lib Emucap.Live Emucap.Live.Temporal Emucap.Live.Temporal.ProducerOwnership

/-! ## What a caller observes -/

structure Observed where
  result : OwnerResult
  plan : Option CleanupPlan
  activeKey : Option OperationKey
  terminal : Attachment → OperationKey → Option CleanupPlan
  retired : Bool

def ownerResult : OwnershipError → OwnerResult
  | .invalidIdentity => .invalidIdentity
  | .wrongAttachment => .wrongAttachment
  | .busy => .busy
  | .notActive => .notActive
  | .retired => .retired

/-- The result of the owner in Rust, as the native ones report it. -/
def answered : Except OwnershipError (Option CleanupPlan) → OwnerResult × Option CleanupPlan
  | .ok plan => (.ok, plan)
  | .error e => (ownerResult e, none)

def rustStep (o : ProducerOwnership) (c : Call) : Observed × ProducerOwnership :=
  (⟨(answered (o.call c).1).1, (answered (o.call c).1).2, (o.call c).2.activeParentKey,
    (o.call c).2.terminalFor, (o.call c).2.retired⟩, (o.call c).2)

namespace Mednafen.Ownership

/-- The call of the native owner for a call of the interface in Rust. -/
def call (o : Ownership) : Call → (OwnerResult × Option CleanupPlan) × Ownership
  | .attach a => (((o.attach a).1, none), (o.attach a).2)
  | .begin a k => (((o.begin a k).1, none), (o.begin a k).2)
  | .recordEffect a k => (((o.effect a k).1, none), (o.effect a k).2)
  | .recordInputAttempt a k p => (((o.inputAttempt a k p).1, none), (o.inputAttempt a k p).2)
  | .startCleanup a k => o.startCleanup a k
  | .detach a => o.detach a
  | .finishCleanup p e => (((o.finishCleanup p e).1, none), (o.finishCleanup p e).2)
  | .authorizeUnscoped a b => ((o.authorizeUnscoped a b, none), o)
  | .authorizeObservation a k => ((o.authorize a k, none), o)

def observe (o : Ownership) (c : Call) : Observed × Ownership :=
  (⟨(o.call c).1.1, (o.call c).1.2, (o.call c).2.activeKey, (o.call c).2.terminalFor,
    (o.call c).2.retired⟩, (o.call c).2)

end Mednafen.Ownership

namespace Dolphin.ProducerOwnership

def call (o : ProducerOwnership) : Call → (OwnerResult × Option CleanupPlan) × ProducerOwnership
  | .attach a => (((o.attach a).1, none), (o.attach a).2)
  | .begin a k => (((o.begin a k).1, none), (o.begin a k).2)
  | .recordEffect a k => (((o.effect a k none).1, none), (o.effect a k none).2)
  | .recordInputAttempt a k p => (((o.effect a k (some p)).1, none), (o.effect a k (some p)).2)
  | .startCleanup a k => o.startCleanup a k
  | .detach a => o.detach a
  | .finishCleanup p e => (((o.finishCleanup p e).1, none), (o.finishCleanup p e).2)
  | .authorizeUnscoped a b => ((o.authorizeUnscoped a b, none), o)
  | .authorizeObservation a k => ((o.authorize a k, none), o)

def observe (o : ProducerOwnership) (c : Call) : Observed × ProducerOwnership :=
  (⟨(o.call c).1.1, (o.call c).1.2, (o.call c).2.activeKey, (o.call c).2.terminalFor,
    (o.call c).2.retired⟩, (o.call c).2)

end Dolphin.ProducerOwnership

/-! ## Identities without a NUL -/

def NoNul (value : String) : Prop := '\x00' ∉ value.toList

instance (value : String) : Decidable (NoNul value) := inferInstanceAs (Decidable (¬ _))

def PlainAttachment (a : Attachment) : Prop := NoNul a.brokerInstance

def PlainKey (k : OperationKey) : Prop := NoNul k.runtime ∧ NoNul k.ownerId ∧ NoNul k.operationId

/-- No string of the attachments and keys of a call contains a NUL. -/
def PlainCall : Call → Prop
  | .attach a => PlainAttachment a
  | .begin a k => PlainAttachment a ∧ PlainKey k
  | .recordEffect a k => PlainAttachment a ∧ PlainKey k
  | .recordInputAttempt a k _ => PlainAttachment a ∧ PlainKey k
  | .startCleanup a k => PlainAttachment a ∧ PlainKey k
  | .detach a => PlainAttachment a
  | .finishCleanup plan _ => PlainAttachment plan.attachment ∧ PlainKey plan.key
  | .authorizeUnscoped a _ => PlainAttachment a
  | .authorizeObservation a k => PlainAttachment a ∧ PlainKey k

theorem validIdentityPart_iff {value : String} (h : NoNul value) :
    Mednafen.ValidIdentityPart value ↔ Dolphin.ValidPart value := by
  unfold Mednafen.ValidIdentityPart Dolphin.ValidPart
  exact ⟨fun hv => ⟨hv.1, hv.2.1⟩, fun hv => ⟨hv.1, hv.2, h⟩⟩

theorem keyValid_iff {k : OperationKey} (h : PlainKey k) : Mednafen.KeyValid k ↔ k.Valid := by
  unfold Mednafen.KeyValid OperationKey.Valid
  rw [validIdentityPart_iff h.1, validIdentityPart_iff h.2.1, validIdentityPart_iff h.2.2]
  simp [Dolphin.ValidPart]

theorem attachmentValid_iff {a : Attachment} (h : PlainAttachment a) :
    Mednafen.AttachmentValid a ↔ a.Valid := by
  unfold Mednafen.AttachmentValid Attachment.Valid
  rw [validIdentityPart_iff h, Dolphin.ValidPart, and_assoc]

/-! ## Rust against Mednafen -/

/-- The owner of Mednafen stands where the owner in Rust stands. -/
structure Mirrors (o : ProducerOwnership) (m : Mednafen.Ownership) : Prop where
  runtime : m.runtime = o.runtime
  valid : Mednafen.ValidIdentityPart o.runtime
  attachment : m.attachment = o.attachment
  parent : m.parent = o.parent.map (·.plan)
  stopping : ∀ p, o.parent = some p → m.stopping = p.stopping
  terminal : m.terminal = o.terminal
  retired : m.retired = o.retired
  alone : o.parent.isSome ∨ o.retired = true → o.terminal = none

namespace Mirrors

variable {o : ProducerOwnership} {m : Mednafen.Ownership}

theorem attached (h : Mirrors o m) (a : Attachment) : m.Attached a ↔ o.attachment = some a := by
  rw [Mednafen.Ownership.Attached, h.attachment]

theorem authorize (h : Mirrors o m) (a : Attachment) (k : OperationKey) :
    m.authorize a k = (answered ((o.active a k).map fun _ => none)).1 := by
  unfold Mednafen.Ownership.authorize active
  simp only [h.retired, h.parent, h.attached]
  by_cases hretired : o.retired = true
  · rw [if_pos hretired, if_pos hretired]
    rfl
  rw [if_neg hretired, if_neg hretired]
  by_cases hattached : o.attachment = some a
  swap
  · rw [if_pos hattached, if_pos hattached]
    rfl
  simp only [hattached, ne_eq, not_true_eq_false, if_false]
  rcases hp : o.parent with _ | p
  · rfl
  · simp only [Option.map_some, Option.any_some, decide_eq_true_eq, h.stopping p hp]
    by_cases hkey : p.plan.key = k ∧ p.stopping = false
    · rw [if_pos hkey, if_pos hkey]
      rfl
    · rw [if_neg hkey, if_neg hkey]
      rfl

theorem attach (h : Mirrors o m) {a : Attachment} (ha : PlainAttachment a) :
    (m.attach a).1 = (answered ((o.attach a).1.map fun _ => none)).1 ∧
      Mirrors (o.attach a).2 (m.attach a).2 := by
  have hidentity : (¬ Mednafen.ValidIdentityPart m.runtime ∨ ¬ Mednafen.AttachmentValid a) ↔ ¬ a.Valid := by
    rw [h.runtime, attachmentValid_iff ha]
    exact or_iff_right (not_not.mpr h.valid)
  have hbusy : (m.parent.isSome ∨ m.attachment.isSome) ↔ (o.parent.isSome ∨ o.attachment.isSome) := by
    rw [h.parent, h.attachment, Option.isSome_map]
  unfold Mednafen.Ownership.attach ProducerOwnership.attach
  simp only [h.retired, hidentity, h.attached, hbusy]
  by_cases hretired : o.retired = true
  · simp only [if_pos hretired]
    exact ⟨rfl, h⟩
  by_cases hvalid : a.Valid
  swap
  · simp only [if_neg hretired, if_pos hvalid]
    exact ⟨rfl, h⟩
  simp only [if_neg hretired, hvalid, not_true_eq_false, if_false]
  split_ifs with hsame hoccupied
  · exact ⟨rfl, h⟩
  · exact ⟨rfl, h⟩
  · exact ⟨rfl, h.runtime, h.valid, rfl, h.parent, h.stopping, rfl, rfl, fun _ => rfl⟩

theorem begin (h : Mirrors o m) {a : Attachment} {k : OperationKey} (hk : PlainKey k) :
    (m.begin a k).1 = (answered ((o.begin a k).1.map fun _ => none)).1 ∧
      Mirrors (o.begin a k).2 (m.begin a k).2 := by
  unfold Mednafen.Ownership.begin ProducerOwnership.begin
  simp only [h.retired, keyValid_iff hk, h.runtime, h.attached, h.parent, h.terminal]
  by_cases hretired : o.retired = true
  · rw [if_pos hretired, if_pos hretired]
    exact ⟨rfl, h⟩
  by_cases hvalid : k.Valid
  swap
  · simp only [if_neg hretired, hvalid, not_false_eq_true, true_or, if_true]
    exact ⟨rfl, h⟩
  by_cases hruntime : k.runtime = o.runtime
  swap
  · simp only [if_neg hretired, hvalid, hruntime, ne_eq, not_true_eq_false, not_false_eq_true, or_true,
      if_true, if_false]
    exact ⟨rfl, h⟩
  simp only [if_neg hretired, hvalid, hruntime, ne_eq, not_true_eq_false, or_self, if_false]
  by_cases hattached : o.attachment = some a
  swap
  · simp only [if_pos hattached]
    exact ⟨rfl, h⟩
  simp only [hattached, not_true_eq_false, if_false]
  rcases hp : o.parent with _ | p
  · simp only [Option.map_none]
    split_ifs with hterminal
    · exact ⟨rfl, h⟩
    · refine ⟨rfl, rfl, h.valid, h.attachment.trans hattached, rfl, ?_, rfl, rfl, fun _ => rfl⟩
      rintro _ ⟨⟩
      rfl
  · simp only [Option.map_some, h.stopping p hp]
    split_ifs with hkey
    · exact ⟨rfl, h⟩
    · exact ⟨rfl, h⟩

theorem record (h : Mirrors o m) {p : Parent} (hp : o.parent = some p) (f : CleanupPlan → CleanupPlan) :
    Mirrors { o with parent := some { p with plan := f p.plan } } { m with parent := m.parent.map f } := by
  have halone : o.terminal = none := h.alone (.inl (by rw [hp]; rfl))
  refine ⟨h.runtime, h.valid, h.attachment, ?_, ?_, h.terminal, h.retired, fun _ => halone⟩
  · simp only [h.parent, hp, Option.map_some]
  · rintro _ ⟨⟩
    exact h.stopping p hp

theorem effect (h : Mirrors o m) (a : Attachment) (k : OperationKey) :
    (m.effect a k).1 = (answered ((o.recordEffect a k).1.map fun _ => none)).1 ∧
      Mirrors (o.recordEffect a k).2 (m.effect a k).2 := by
  unfold Mednafen.Ownership.effect recordEffect
  rw [h.authorize]
  rcases hactive : o.active a k with e | p
  · cases e <;> exact ⟨rfl, h⟩
  · obtain ⟨-, -, hp, -, -⟩ := active_eq_ok hactive
    exact ⟨rfl, h.record hp fun plan => { plan with effectsStarted := true }⟩

theorem inputAttempt (h : Mirrors o m) (a : Attachment) (k : OperationKey) (port : ℕ) :
    (m.inputAttempt a k port).1 = (answered ((o.recordInputAttempt a k port).1.map fun _ => none)).1 ∧
      Mirrors (o.recordInputAttempt a k port).2 (m.inputAttempt a k port).2 := by
  unfold Mednafen.Ownership.inputAttempt recordInputAttempt
  rw [h.authorize]
  rcases hactive : o.active a k with e | p
  · cases e <;> exact ⟨rfl, h⟩
  · obtain ⟨-, -, hp, -, -⟩ := active_eq_ok hactive
    exact ⟨rfl, h.record hp fun plan =>
      { plan with inputPorts := insert port plan.inputPorts, effectsStarted := true }⟩

theorem startCleanup (h : Mirrors o m) (a : Attachment) (k : OperationKey) :
    (m.startCleanup a k).1 = answered ((o.startCleanup a k).1.map some) ∧
      Mirrors (o.startCleanup a k).2 (m.startCleanup a k).2 := by
  unfold Mednafen.Ownership.startCleanup ProducerOwnership.startCleanup
  rw [h.retired, h.parent]
  split_ifs with hretired
  · exact ⟨rfl, h⟩
  rcases hp : o.parent with _ | p
  · exact ⟨rfl, h⟩
  · simp only [Option.map_some]
    have halone : o.terminal = none := h.alone (.inl (by rw [hp]; rfl))
    by_cases hown : p.plan.key = k ∧ p.plan.attachment = a
    · simp only [hown.1, hown.2, ne_eq, not_true_eq_false, or_self, if_false, and_self, if_true]
      refine ⟨rfl, h.runtime, h.valid, h.attachment, rfl, ?_, h.terminal, rfl, fun _ => halone⟩
      · rintro _ ⟨⟩
        rfl
    · have hforeign : p.plan.key ≠ k ∨ p.plan.attachment ≠ a := not_and_or.mp hown
      simp only [if_pos hforeign, if_neg hown]
      exact ⟨rfl, h⟩

theorem detach (h : Mirrors o m) (a : Attachment) :
    (m.detach a).1 = answered (o.detach a).1 ∧ Mirrors (o.detach a).2 (m.detach a).2 := by
  unfold Mednafen.Ownership.detach ProducerOwnership.detach
  simp only [h.retired, h.attached, h.parent]
  by_cases hretired : o.retired = true
  · simp only [if_pos hretired]
    exact ⟨rfl, h⟩
  by_cases hattached : o.attachment = some a
  swap
  · simp only [if_neg hretired, if_pos hattached]
    exact ⟨rfl, h⟩
  simp only [if_neg hretired, hattached, ne_eq, not_true_eq_false, if_false]
  refine ⟨rfl, h.runtime, h.valid, rfl, ?_, ?_, rfl, rfl, fun _ => rfl⟩
  · simp only [Option.map_map]
    rfl
  · intro p hp
    rcases hparent : o.parent with _ | q
    · simp [hparent] at hp
    · simp only [hparent, Option.map_some, Option.some.injEq] at hp
      simp [← hp]

theorem finishCleanup (h : Mirrors o m) (plan : CleanupPlan) (evidence : CleanupEvidence) :
    (m.finishCleanup plan evidence).1 = (answered ((o.finishCleanup plan evidence).1.map fun _ => none)).1 ∧
      Mirrors (o.finishCleanup plan evidence).2 (m.finishCleanup plan evidence).2 := by
  unfold Mednafen.Ownership.finishCleanup ProducerOwnership.finishCleanup
  simp only [h.retired, h.attached]
  by_cases hretired : o.retired = true
  · rw [if_pos hretired, if_pos hretired]
    exact ⟨rfl, h⟩
  rw [if_neg hretired, if_neg hretired]
  rcases hp : o.parent with _ | p
  · rw [h.parent, hp]
    exact ⟨rfl, h⟩
  have halone : o.terminal = none := h.alone (.inl (by rw [hp]; rfl))
  have hnative : m.parent = some p.plan := by
    rw [h.parent, hp]
    rfl
  simp only [hnative, h.stopping p hp, Option.some_ne_none, false_or, ne_eq, Option.some.injEq]
  by_cases hplan : p.stopping = true ∧ p.plan = plan
  swap
  · have hother : p.stopping = false ∨ ¬ p.plan = plan := by
      rw [← Bool.not_eq_true]
      exact not_and_or.mp hplan
    simp only [if_pos hother, if_neg hplan]
    exact ⟨rfl, h⟩
  obtain ⟨hstop, rfl⟩ := hplan
  have hdirty : ((p.plan.effectsStarted = true ∧ evidence.stopVerified = false) ∨
      ¬ evidence.releasedPorts = p.plan.inputPorts) ↔ ¬ Clean p.plan evidence := by
    rw [Clean, not_and_or, Classical.not_imp, Bool.not_eq_true]
  simp only [hstop, Bool.true_eq_false, not_true_eq_false, or_self, if_false, and_self, if_true, hdirty]
  by_cases hclean : Clean p.plan evidence
  · simp only [hclean, not_true_eq_false, if_false, if_true]
    refine ⟨rfl, h.runtime, h.valid, h.attachment, rfl, nofun, ?_, rfl, ?_⟩
    · rw [h.terminal]
    · rintro (hparent | hr)
      · cases hparent
      · exact absurd hr hretired
  · simp only [hclean, not_false_eq_true, if_true, if_false]
    refine ⟨rfl, h.runtime, h.valid, h.attachment, ?_, ?_, halone.symm, rfl, fun _ => halone⟩
    · exact hnative
    · rintro _ ⟨⟩
      exact h.stopping p hp

theorem answered_fst {r : Except OwnershipError Unit} :
    answered (r.map fun _ => none) = ((answered (r.map fun _ => none)).1, none) := by
  cases r <;> rfl

theorem call (h : Mirrors o m) {c : Call} (hc : PlainCall c) :
    (m.call c).1 = answered (o.call c).1 ∧ Mirrors (o.call c).2 (m.call c).2 := by
  cases c with
  | attach a =>
    obtain ⟨hanswer, hnext⟩ := h.attach hc
    exact ⟨(congrArg (·, none) hanswer).trans (answered_fst).symm, hnext⟩
  | begin a k =>
    obtain ⟨hanswer, hnext⟩ := h.begin (a := a) hc.2
    exact ⟨(congrArg (·, none) hanswer).trans (answered_fst).symm, hnext⟩
  | recordEffect a k =>
    obtain ⟨hanswer, hnext⟩ := h.effect a k
    exact ⟨(congrArg (·, none) hanswer).trans (answered_fst).symm, hnext⟩
  | recordInputAttempt a k port =>
    obtain ⟨hanswer, hnext⟩ := h.inputAttempt a k port
    exact ⟨(congrArg (·, none) hanswer).trans (answered_fst).symm, hnext⟩
  | startCleanup a k => exact h.startCleanup a k
  | detach a => exact h.detach a
  | finishCleanup plan evidence =>
    obtain ⟨hanswer, hnext⟩ := h.finishCleanup plan evidence
    exact ⟨(congrArg (·, none) hanswer).trans (answered_fst).symm, hnext⟩
  | authorizeUnscoped a observation =>
    refine ⟨?_, h⟩
    simp only [Mednafen.Ownership.call, Mednafen.Ownership.authorizeUnscoped, ProducerOwnership.call,
      ProducerOwnership.authorizeUnscoped, h.retired, h.attached, h.parent, Option.isSome_map]
    split_ifs <;> first | rfl | contradiction
  | authorizeObservation a k =>
    refine ⟨?_, h⟩
    simp only [Mednafen.Ownership.call, ProducerOwnership.call, authorizeObservation, h.authorize]
    rcases o.active a k with e | p
    · rfl
    · rfl

theorem terminalFor (h : Mirrors o m) : m.terminalFor = o.terminalFor := by
  funext a k
  unfold Mednafen.Ownership.terminalFor ProducerOwnership.terminalFor
  rw [h.retired, h.terminal]
  split_ifs with hretired
  · rw [h.alone (.inr hretired)]
    rfl
  · simp only [and_comm]

theorem simulation : Simulation rustStep Mednafen.Ownership.observe PlainCall Mirrors where
  answer := by
    intro o m c h hc
    obtain ⟨hanswer, hnext⟩ := h.call hc
    unfold rustStep Mednafen.Ownership.observe
    simp only [hanswer, hnext.terminalFor, hnext.retired]
    rw [Mednafen.Ownership.activeKey, activeParentKey, hnext.parent, Option.map_map]
    rfl
  next := by
    intro o m c h hc
    exact (h.call hc).2

end Mirrors

/-! ## Mednafen against Dolphin -/

/-- The owner of Dolphin stands where the one of Mednafen stands. -/
structure Follows (m : Mednafen.Ownership) (d : Dolphin.ProducerOwnership) : Prop where
  runtime : d.runtime = m.runtime
  plain : NoNul m.runtime
  attachment : d.attachment = m.attachment
  parent : d.parent = m.parent
  stopping : m.parent.isSome → d.stopping = m.stopping
  terminal : d.terminal = m.terminal
  retired : d.retired = m.retired
  alone : m.parent.isSome ∨ m.retired = true → m.terminal = none

namespace Follows

variable {m : Mednafen.Ownership} {d : Dolphin.ProducerOwnership}

theorem attached (a : Attachment) : m.Attached a ↔ m.attachment = some a := Iff.rfl

theorem authorize (h : Follows m d) (a : Attachment) (k : OperationKey) :
    d.authorize a k = m.authorize a k := by
  unfold Dolphin.ProducerOwnership.authorize Mednafen.Ownership.authorize
  simp only [h.retired, h.attachment, h.parent, attached]
  rcases hp : m.parent with _ | p
  · simp only [Option.any_none]
    rfl
  · rw [h.stopping (by rw [hp]; rfl)]

theorem attach (h : Follows m d) {a : Attachment} (ha : PlainAttachment a) :
    (d.attach a).1 = (m.attach a).1 ∧ Follows (m.attach a).2 (d.attach a).2 := by
  have hidentity : (¬ Dolphin.ValidPart d.runtime ∨ ¬ Dolphin.AttachmentValid a) ↔
      (¬ Mednafen.ValidIdentityPart m.runtime ∨ ¬ Mednafen.AttachmentValid a) := by
    rw [h.runtime, validIdentityPart_iff h.plain, Dolphin.AttachmentValid, Mednafen.AttachmentValid,
      validIdentityPart_iff ha]
  unfold Dolphin.ProducerOwnership.attach Mednafen.Ownership.attach
  simp only [h.retired, hidentity, h.attachment, h.parent, attached]
  by_cases hretired : m.retired = true
  · simp only [if_pos hretired]
    exact ⟨trivial, h⟩
  simp only [if_neg hretired]
  by_cases hvalid : ¬ Mednafen.ValidIdentityPart m.runtime ∨ ¬ Mednafen.AttachmentValid a
  · simp only [if_pos hvalid]
    exact ⟨trivial, h⟩
  simp only [if_neg hvalid]
  by_cases hsame : m.attachment = some a
  · simp only [if_pos hsame]
    exact ⟨trivial, h⟩
  simp only [if_neg hsame]
  split_ifs with hbusy
  · exact ⟨rfl, h⟩
  · exact ⟨rfl, h.runtime, h.plain, rfl, rfl, h.stopping, rfl, rfl, fun _ => rfl⟩

theorem begin (h : Follows m d) {a : Attachment} {k : OperationKey} (hk : PlainKey k) :
    (d.begin a k).1 = (m.begin a k).1 ∧ Follows (m.begin a k).2 (d.begin a k).2 := by
  have hvalid : Dolphin.KeyValid k ↔ Mednafen.KeyValid k := by
    rw [Dolphin.KeyValid, Mednafen.KeyValid, validIdentityPart_iff hk.1, validIdentityPart_iff hk.2.1,
      validIdentityPart_iff hk.2.2]
  unfold Dolphin.ProducerOwnership.begin Mednafen.Ownership.begin
  simp only [h.retired, hvalid, h.runtime, h.attachment, h.parent, h.terminal, ne_eq, attached]
  by_cases hretired : m.retired = true
  · simp only [if_pos hretired]
    exact ⟨trivial, h⟩
  simp only [if_neg hretired]
  by_cases hidentity : ¬ Mednafen.KeyValid k ∨ ¬ k.runtime = m.runtime
  · simp only [if_pos hidentity]
    exact ⟨trivial, h⟩
  simp only [if_neg hidentity]
  by_cases hattached : m.attachment = some a
  swap
  · simp only [if_pos hattached]
    exact ⟨trivial, h⟩
  simp only [hattached, not_true_eq_false, if_false]
  rcases hp : m.parent with _ | p
  · simp only
    by_cases hterminal : (m.terminal.any fun last => last.key = k) = true
    · simp only [if_pos hterminal]
      exact ⟨trivial, h⟩
    · simp only [if_neg hterminal]
      exact ⟨trivial, rfl, h.plain, rfl, rfl, fun _ => rfl, rfl, rfl, fun _ => rfl⟩
  · rw [h.stopping (by rw [hp]; rfl)]
    exact ⟨rfl, h⟩

theorem record (h : Follows m d) (f : CleanupPlan → CleanupPlan) :
    Follows { m with parent := m.parent.map f } { d with parent := d.parent.map f } := by
  refine ⟨h.runtime, h.plain, h.attachment, ?_, ?_, h.terminal, h.retired, ?_⟩
  · simp only [h.parent]
  · simpa only [Option.isSome_map] using h.stopping
  · simpa only [Option.isSome_map] using h.alone

theorem effect (h : Follows m d) (a : Attachment) (k : OperationKey) :
    (d.effect a k none).1 = (m.effect a k).1 ∧ Follows (m.effect a k).2 (d.effect a k none).2 := by
  unfold Dolphin.ProducerOwnership.effect Mednafen.Ownership.effect
  rw [h.authorize]
  by_cases hok : m.authorize a k = .ok
  · rw [if_neg (not_not.mpr hok), if_pos hok]
    exact ⟨rfl, h.record _⟩
  · rw [if_pos hok, if_neg hok]
    exact ⟨rfl, h⟩

theorem inputAttempt (h : Follows m d) (a : Attachment) (k : OperationKey) (port : ℕ) :
    (d.effect a k (some port)).1 = (m.inputAttempt a k port).1 ∧
      Follows (m.inputAttempt a k port).2 (d.effect a k (some port)).2 := by
  unfold Dolphin.ProducerOwnership.effect Mednafen.Ownership.inputAttempt
  rw [h.authorize]
  by_cases hok : m.authorize a k = .ok
  · rw [if_neg (not_not.mpr hok), if_neg (not_not.mpr hok)]
    exact ⟨rfl, h.record _⟩
  · rw [if_pos hok, if_pos hok]
    exact ⟨rfl, h⟩

theorem startCleanup (h : Follows m d) (a : Attachment) (k : OperationKey) :
    (d.startCleanup a k).1 = (m.startCleanup a k).1 ∧
      Follows (m.startCleanup a k).2 (d.startCleanup a k).2 := by
  unfold Dolphin.ProducerOwnership.startCleanup Mednafen.Ownership.startCleanup
  rw [h.retired, h.parent]
  split_ifs with hretired
  · exact ⟨rfl, h⟩
  rcases hp : m.parent with _ | p
  · exact ⟨rfl, h⟩
  · simp only
    split_ifs with hforeign
    · exact ⟨rfl, h⟩
    · exact ⟨rfl, h.runtime, h.plain, h.attachment, rfl, fun _ => rfl, h.terminal, rfl,
        fun _ => h.alone (.inl (by rw [hp]; rfl))⟩

theorem detach (h : Follows m d) (a : Attachment) :
    (d.detach a).1 = (m.detach a).1 ∧ Follows (m.detach a).2 (d.detach a).2 := by
  unfold Dolphin.ProducerOwnership.detach Mednafen.Ownership.detach
  simp only [h.retired, h.attachment, h.parent, ne_eq, attached]
  by_cases hretired : m.retired = true
  · simp only [if_pos hretired]
    exact ⟨trivial, h⟩
  by_cases hattached : m.attachment = some a
  swap
  · simp only [if_neg hretired, if_pos hattached]
    exact ⟨trivial, h⟩
  simp only [if_neg hretired, hattached, not_true_eq_false, if_false]
  refine ⟨trivial, h.runtime, h.plain, rfl, rfl, ?_, rfl, rfl, fun _ => rfl⟩
  intro hparent
  rw [if_pos hparent, if_pos hparent]

theorem finishCleanup (h : Follows m d) (plan : CleanupPlan) (evidence : CleanupEvidence) :
    (d.finishCleanup plan evidence).1 = (m.finishCleanup plan evidence).1 ∧
      Follows (m.finishCleanup plan evidence).2 (d.finishCleanup plan evidence).2 := by
  unfold Dolphin.ProducerOwnership.finishCleanup Mednafen.Ownership.finishCleanup
  simp only [h.retired, h.parent, h.attachment, attached]
  by_cases hretired : m.retired = true
  · rw [if_pos hretired, if_pos hretired]
    exact ⟨rfl, h⟩
  rw [if_neg hretired, if_neg hretired]
  rcases hp : m.parent with _ | p
  · exact ⟨rfl, h⟩
  have hparent : m.parent.isSome := by rw [hp]; rfl
  rw [h.stopping hparent]
  by_cases hother : some p = none ∨ m.stopping = false ∨ some p ≠ some plan
  · simp only [if_pos hother]
    exact ⟨trivial, h⟩
  simp only [if_neg hother]
  by_cases hdirty : plan.effectsStarted = true ∧ evidence.stopVerified = false ∨
      evidence.releasedPorts ≠ plan.inputPorts
  · simp only [if_pos hdirty]
    refine ⟨trivial, h.runtime, h.plain, rfl, hp.symm, fun _ => rfl, ?_, rfl, fun _ => rfl⟩
    exact h.terminal.trans (h.alone (.inl hparent))
  simp only [if_neg hdirty]
  obtain rfl : p = plan := by
    by_contra hne
    exact hother (.inr (.inr fun he => hne (Option.some.inj he)))
  refine ⟨trivial, h.runtime, h.plain, rfl, rfl, nofun, ?_, rfl, ?_⟩
  · simp only [h.terminal]
  · exact fun hr => absurd (hr.resolve_left nofun) hretired

theorem call (h : Follows m d) {c : Call} (hc : PlainCall c) :
    (d.call c).1 = (m.call c).1 ∧ Follows (m.call c).2 (d.call c).2 := by
  cases c with
  | attach a =>
    obtain ⟨hanswer, hnext⟩ := h.attach hc
    exact ⟨congrArg (·, none) hanswer, hnext⟩
  | begin a k =>
    obtain ⟨hanswer, hnext⟩ := h.begin (a := a) hc.2
    exact ⟨congrArg (·, none) hanswer, hnext⟩
  | recordEffect a k =>
    obtain ⟨hanswer, hnext⟩ := h.effect a k
    exact ⟨congrArg (·, none) hanswer, hnext⟩
  | recordInputAttempt a k port =>
    obtain ⟨hanswer, hnext⟩ := h.inputAttempt a k port
    exact ⟨congrArg (·, none) hanswer, hnext⟩
  | startCleanup a k => exact h.startCleanup a k
  | detach a => exact h.detach a
  | finishCleanup plan evidence =>
    obtain ⟨hanswer, hnext⟩ := h.finishCleanup plan evidence
    exact ⟨congrArg (·, none) hanswer, hnext⟩
  | authorizeUnscoped a observation =>
    refine ⟨?_, h⟩
    simp only [Dolphin.ProducerOwnership.call, Dolphin.ProducerOwnership.authorizeUnscoped,
      Mednafen.Ownership.call, Mednafen.Ownership.authorizeUnscoped, attached,
      h.retired, h.attachment, h.parent]
  | authorizeObservation a k => exact ⟨congrArg (·, none) (h.authorize a k), h⟩

theorem terminalFor (h : Follows m d) : d.terminalFor = m.terminalFor := by
  funext a k
  unfold Dolphin.ProducerOwnership.terminalFor Mednafen.Ownership.terminalFor
  rw [h.terminal]
  split_ifs with hretired
  · rw [h.alone (.inr hretired)]
    rfl
  · rfl

theorem simulation :
    Simulation Mednafen.Ownership.observe Dolphin.ProducerOwnership.observe PlainCall Follows where
  answer := by
    intro m d c h hc
    obtain ⟨hanswer, hnext⟩ := h.call hc
    unfold Mednafen.Ownership.observe Dolphin.ProducerOwnership.observe
    simp only [hanswer, hnext.terminalFor, hnext.retired]
    rw [Mednafen.Ownership.activeKey, Dolphin.ProducerOwnership.activeKey, hnext.parent]
  next := by
    intro m d c h hc
    exact (h.call hc).2

end Follows

/-! ## Agreement -/

/-- Whatever the calls are, the three owners answer each of them alike and then show the same active key,
the same retained plans and the same retirement, if neither the runtime nor an identity in a call
contains a NUL. -/
theorem owners_agree (runtime : String) (hruntime : runtime ≠ "" ∧ runtime.utf8ByteSize ≤ 256)
    (hplain : NoNul runtime) (calls : List Call) (hcalls : ∀ c ∈ calls, PlainCall c) :
    ∃ start, ProducerOwnership.new runtime = .ok start ∧
      outputs rustStep start calls =
        outputs Mednafen.Ownership.observe (Mednafen.Ownership.new runtime) calls ∧
      outputs rustStep start calls =
        outputs Dolphin.ProducerOwnership.observe (Dolphin.ProducerOwnership.new runtime) calls := by
  have hnew : ProducerOwnership.new runtime = .ok ⟨runtime, none, none, none, false⟩ := by
    rw [ProducerOwnership.new, if_neg]
    rintro (hempty | hlong)
    · exact hruntime.1 hempty
    · omega
  have hmednafen : Mirrors ⟨runtime, none, none, none, false⟩ (Mednafen.Ownership.new runtime) :=
    ⟨rfl, ⟨hruntime.1, hruntime.2, hplain⟩, rfl, rfl, nofun, rfl, rfl, fun _ => rfl⟩
  have hdolphin : Follows (Mednafen.Ownership.new runtime) (Dolphin.ProducerOwnership.new runtime) :=
    ⟨rfl, hplain, rfl, rfl, nofun, rfl, rfl, fun _ => rfl⟩
  have hfirst := Mirrors.simulation.outputs_eq calls _ _ hmednafen hcalls
  have hsecond := Follows.simulation.outputs_eq calls _ _ hdolphin hcalls
  exact ⟨_, hnew, hfirst, hfirst.trans hsecond⟩

def sampleAttachment : Attachment := ⟨"broker", 1, 1⟩

def sampleKey : OperationKey := ⟨"r", "owner", "parent"⟩

def sampleCalls : List Call :=
  [.attach sampleAttachment, .begin sampleAttachment sampleKey,
    .recordInputAttempt sampleAttachment sampleKey 0, .startCleanup sampleAttachment sampleKey,
    .finishCleanup ⟨sampleKey, sampleAttachment, {0}, true⟩ ⟨false, ∅⟩]

theorem sampleCalls_plain : ∀ c ∈ sampleCalls, PlainCall c := by
  have ha : PlainAttachment sampleAttachment := (by decide : NoNul "broker")
  have hk : PlainKey sampleKey := by
    refine ⟨?_, ?_, ?_⟩
    · exact (by decide : NoNul "r")
    · exact (by decide : NoNul "owner")
    · exact (by decide : NoNul "parent")
  simp only [sampleCalls, List.forall_mem_cons]
  exact ⟨ha, ⟨ha, hk⟩, ⟨ha, hk⟩, ⟨ha, hk⟩, ⟨ha, hk⟩, nofun⟩

/-- A parent that owes an effect and a port is finished without evidence: all three retire. -/
theorem owners_agree_retired :
    ∃ start, ProducerOwnership.new "r" = .ok start ∧
      outputs rustStep start sampleCalls =
        outputs Mednafen.Ownership.observe (Mednafen.Ownership.new "r") sampleCalls ∧
      outputs rustStep start sampleCalls =
        outputs Dolphin.ProducerOwnership.observe (Dolphin.ProducerOwnership.new "r") sampleCalls :=
  owners_agree "r" (by decide) (by decide) sampleCalls sampleCalls_plain

/-- A runtime identity with a NUL is good enough for the owner in Rust, and Mednafen then refuses every
attachment. -/
theorem owners_differ_nul :
    ¬ ∀ runtime : String, runtime ≠ "" ∧ runtime.utf8ByteSize ≤ 256 → ∀ calls : List Call,
      (∀ c ∈ calls, PlainCall c) → ∃ start, ProducerOwnership.new runtime = .ok start ∧
        outputs rustStep start calls =
          outputs Mednafen.Ownership.observe (Mednafen.Ownership.new runtime) calls ∧
        outputs rustStep start calls =
          outputs Dolphin.ProducerOwnership.observe (Dolphin.ProducerOwnership.new runtime) calls := by
  intro h
  obtain ⟨start, hstart, hsame, -⟩ := h "r\x00" (by decide) [.attach ⟨"broker", 1, 1⟩] (by
    intro c hc
    rw [List.mem_singleton] at hc
    subst hc
    exact (by decide : NoNul "broker"))
  have hnew : ProducerOwnership.new "r\x00" = .ok ⟨"r\x00", none, none, none, false⟩ := by
    rw [ProducerOwnership.new, if_neg (by decide)]
  cases hnew.symm.trans hstart
  have hresult := congrArg (List.map Observed.result) hsame
  exact absurd hresult (by decide)

end Emucap.Adapters
