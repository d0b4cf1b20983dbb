import Emucap.Live.ControlSession
import Mathlib.Data.Finset.Insert
import Mathlib.Data.Finset.Lattice.Lemmas

/-!
# Producer-side parent admission

`ProducerOwnership` (`live/temporal/owner.rs`). An obligation stays in the plan of its parent until a clean
`finish_cleanup` removes the parent, and a retired owner never moves again.
-/

namespace Emucap.Live.Temporal

inductive OwnershipError where
  | invalidIdentity
  | wrongAttachment
  | busy
  | notActive
  | retired
  deriving DecidableEq

structure CleanupPlan where
  key : OperationKey
  attachment : Attachment
  inputPorts : Finset Nat
  effectsStarted : Bool
  deriving DecidableEq

structure CleanupEvidence where
  stopVerified : Bool
  releasedPorts : Finset Nat

structure Parent where
  plan : CleanupPlan
  stopping : Bool
  deriving DecidableEq

structure ProducerOwnership where
  runtime : String
  attachment : Option Attachment
  parent : Option Parent
  terminal : Option CleanupPlan
  retired : Bool

namespace ProducerOwnership

def new (runtime : String) : Except OwnershipError ProducerOwnership :=
  if runtime = "" ∨ 256 < runtime.utf8ByteSize then .error .invalidIdentity
  else .ok ⟨runtime, none, none, none, false⟩

def attach (o : ProducerOwnership) (attachment : Attachment) :
    Except OwnershipError Unit × ProducerOwnership :=
  if o.retired then (.error .retired, o)
  else if ¬ attachment.Valid then (.error .invalidIdentity, o)
  else if o.attachment = some attachment then (.ok (), o)
  else if o.parent.isSome ∨ o.attachment.isSome then (.error .busy, o)
  else (.ok (), { o with terminal := none, attachment := some attachment })

def begin (o : ProducerOwnership) (attachment : Attachment) (key : OperationKey) :
    Except OwnershipError Unit × ProducerOwnership :=
  if o.retired then (.error .retired, o)
  else if ¬ key.Valid then (.error .invalidIdentity, o)
  else if key.runtime ≠ o.runtime then (.error .invalidIdentity, o)
  else if o.attachment ≠ some attachment then (.error .wrongAttachment, o)
  else match o.parent with
    | some parent =>
      if parent.plan.key = key ∧ parent.stopping = false then (.ok (), o) else (.error .busy, o)
    | none =>
      if (o.terminal.any fun last => last.key = key) then (.error .notActive, o)
      else (.ok (), { o with
        terminal := none
        parent := some ⟨⟨key, attachment, ∅, false⟩, false⟩ })

/-- The parent a scoped call may work under. -/
def active (o : ProducerOwnership) (attachment : Attachment) (key : OperationKey) :
    Except OwnershipError Parent :=
  if o.retired then .error .retired
  else if o.attachment ≠ some attachment then .error .wrongAttachment
  else match o.parent with
    | some parent =>
      if parent.plan.key = key ∧ parent.stopping = false then .ok parent else .error .notActive
    | none => .error .notActive

def activeParentKey (o : ProducerOwnership) : Option OperationKey :=
  o.parent.map (·.plan.key)

def authorizeUnscoped (o : ProducerOwnership) (attachment : Attachment) (observation : Bool) :
    Except OwnershipError Unit :=
  if o.retired then .error .retired
  else if o.attachment ≠ some attachment then .error .wrongAttachment
  else if o.parent.isSome ∧ observation = false then .error .busy
  else .ok ()

def authorizeObservation (o : ProducerOwnership) (attachment : Attachment) (key : OperationKey) :
    Except OwnershipError Unit :=
  (o.active attachment key).map fun _ => ()

def recordEffect (o : ProducerOwnership) (attachment : Attachment) (key : OperationKey) :
    Except OwnershipError Unit × ProducerOwnership :=
  match o.active attachment key with
  | .error e => (.error e, o)
  | .ok parent =>
    (.ok (), { o with
      parent := some { parent with plan := { parent.plan with effectsStarted := true } } })

def recordInputAttempt (o : ProducerOwnership) (attachment : Attachment) (key : OperationKey)
    (port : Nat) : Except OwnershipError Unit × ProducerOwnership :=
  match o.active attachment key with
  | .error e => (.error e, o)
  | .ok parent =>
    (.ok (), { o with
      parent := some { parent with
        plan := { parent.plan with
          inputPorts := insert port parent.plan.inputPorts
          effectsStarted := true } } })

def startCleanup (o : ProducerOwnership) (attachment : Attachment) (key : OperationKey) :
    Except OwnershipError CleanupPlan × ProducerOwnership :=
  if o.retired then (.error .retired, o)
  else match o.parent with
    | some parent =>
      if parent.plan.key = key ∧ parent.plan.attachment = attachment then
        (.ok parent.plan, { o with parent := some { parent with stopping := true } })
      else (.error .notActive, o)
    | none => (.error .notActive, o)

def detach (o : ProducerOwnership) (attachment : Attachment) :
    Except OwnershipError (Option CleanupPlan) × ProducerOwnership :=
  if o.retired then (.error .retired, o)
  else if o.attachment ≠ some attachment then (.ok none, o)
  else (.ok (o.parent.map (·.plan)), { o with
    attachment := none
    terminal := none
    parent := o.parent.map fun parent => { parent with stopping := true } })

/-- The evidence covers everything the plan recorded. -/
def Clean (plan : CleanupPlan) (evidence : CleanupEvidence) : Prop :=
  (plan.effectsStarted = true → evidence.stopVerified = true) ∧
    evidence.releasedPorts = plan.inputPorts

instance (plan : CleanupPlan) (evidence : CleanupEvidence) : Decidable (Clean plan evidence) :=
  inferInstanceAs (Decidable (_ ∧ _))

def finishCleanup (o : ProducerOwnership) (plan : CleanupPlan) (evidence : CleanupEvidence) :
    Except OwnershipError Unit × ProducerOwnership :=
  if o.retired then (.error .retired, o)
  else match o.parent with
    | some parent =>
      if parent.stopping = true ∧ parent.plan = plan then
        if Clean parent.plan evidence then
          (.ok (), { o with
            parent := none
            terminal := if o.attachment = some parent.plan.attachment then some parent.plan
              else o.terminal })
        else (.error .retired, { o with retired := true })
      else (.error .notActive, o)
    | none => (.error .notActive, o)

/-- The retained result of a finished parent, for a repeated finish of the same attachment. -/
def terminalFor (o : ProducerOwnership) (attachment : Attachment) (key : OperationKey) :
    Option CleanupPlan :=
  o.terminal.filter fun last => last.key = key ∧ last.attachment = attachment

/-! ## Calls and runs -/

inductive Call where
  | attach (attachment : Attachment)
  | begin (attachment : Attachment) (key : OperationKey)
  | recordEffect (attachment : Attachment) (key : OperationKey)
  | recordInputAttempt (attachment : Attachment) (key : OperationKey) (port : Nat)
  | startCleanup (attachment : Attachment) (key : OperationKey)
  | detach (attachment : Attachment)
  | finishCleanup (plan : CleanupPlan) (evidence : CleanupEvidence)
  | authorizeUnscoped (attachment : Attachment) (observation : Bool)
  | authorizeObservation (attachment : Attachment) (key : OperationKey)

/-- A call's result (the plan it hands out, if any) and the state it leaves. -/
def call (o : ProducerOwnership) :
    Call → Except OwnershipError (Option CleanupPlan) × ProducerOwnership
  | .attach a => ((o.attach a).1.map fun _ => none, (o.attach a).2)
  | .begin a k => ((o.begin a k).1.map fun _ => none, (o.begin a k).2)
  | .recordEffect a k => ((o.recordEffect a k).1.map fun _ => none, (o.recordEffect a k).2)
  | .recordInputAttempt a k p =>
    ((o.recordInputAttempt a k p).1.map fun _ => none, (o.recordInputAttempt a k p).2)
  | .startCleanup a k => ((o.startCleanup a k).1.map some, (o.startCleanup a k).2)
  | .detach a => o.detach a
  | .finishCleanup p e => ((o.finishCleanup p e).1.map fun _ => none, (o.finishCleanup p e).2)
  | .authorizeUnscoped a b => ((o.authorizeUnscoped a b).map fun _ => none, o)
  | .authorizeObservation a k => ((o.authorizeObservation a k).map fun _ => none, o)

def exec (o : ProducerOwnership) (calls : List Call) : ProducerOwnership :=
  calls.foldl (fun o c => (o.call c).2) o

@[simp] theorem exec_cons (o : ProducerOwnership) (c : Call) (calls : List Call) :
    o.exec (c :: calls) = ((o.call c).2).exec calls := rfl

/-- The states a sequence of calls reaches from a fresh owner. -/
def Reachable (o : ProducerOwnership) : Prop :=
  ∃ runtime start calls, new runtime = .ok start ∧ o = start.exec calls

def Removes (o : ProducerOwnership) (c : Call) : Prop :=
  o.parent.isSome ∧ (o.call c).2.parent = none

def KeepsParent (o : ProducerOwnership) : List Call → Prop
  | [] => True
  | c :: calls => ¬ o.Removes c ∧ KeepsParent (o.call c).2 calls

/-! ## What one call can do -/

/-- `q` still owes everything `p` owes; once `p` is stopping it is `p` itself. -/
structure Grows (p q : Parent) : Prop where
  key : q.plan.key = p.plan.key
  attachment : q.plan.attachment = p.plan.attachment
  ports : p.plan.inputPorts ⊆ q.plan.inputPorts
  effects : p.plan.effectsStarted = true → q.plan.effectsStarted = true
  frozen : p.stopping = true → q = p

theorem Grows.refl (p : Parent) : Grows p p :=
  ⟨rfl, rfl, Finset.Subset.refl _, id, fun _ => rfl⟩

theorem Grows.trans {p q r : Parent} (hpq : Grows p q) (hqr : Grows q r) : Grows p r where
  key := hqr.key.trans hpq.key
  attachment := hqr.attachment.trans hpq.attachment
  ports := hpq.ports.trans hqr.ports
  effects := fun h => hqr.effects (hpq.effects h)
  frozen := fun h => by
    have hq := hpq.frozen h
    rw [hqr.frozen (by rw [hq]; exact h), hq]

/-- The parent is gone after a finish of exactly its plan, on evidence that covers it. -/
def CleanFinish (p : Parent) (c : Call) : Prop :=
  ∃ evidence, c = .finishCleanup p.plan evidence ∧ p.stopping = true ∧ Clean p.plan evidence

theorem active_eq_ok {o : ProducerOwnership} {a : Attachment} {k : OperationKey} {p : Parent}
    (h : o.active a k = .ok p) :
    o.retired = false ∧ o.attachment = some a ∧ o.parent = some p ∧ p.plan.key = k ∧
      p.stopping = false := by
  unfold active at h
  split_ifs at h with hretired hattached
  split at h
  · rename_i parent hparent
    split_ifs at h with hkey
    cases h
    exact ⟨by simpa using hretired, not_not.mp hattached, hparent, hkey.1, hkey.2⟩
  · cases h

theorem grows_of_active {p : Parent} {plan : CleanupPlan} (hactive : p.stopping = false)
    (hkey : plan.key = p.plan.key) (hatt : plan.attachment = p.plan.attachment)
    (hports : p.plan.inputPorts ⊆ plan.inputPorts) (heff : plan.effectsStarted = true) :
    Grows p { p with plan := plan } :=
  ⟨hkey, hatt, hports, fun _ => heff, fun h => by rw [hactive] at h; cases h⟩

theorem grows_stopping (p : Parent) : Grows p { p with stopping := true } :=
  ⟨rfl, rfl, Finset.Subset.refl _, id, fun h => by cases p; simp_all⟩

/-- While a parent exists, a call leaves a parent that owes at least as much, or it is the clean
finish of that parent. -/
theorem call_parent {o : ProducerOwnership} {p : Parent} (hp : o.parent = some p) (c : Call) :
    (∃ q, (o.call c).2.parent = some q ∧ Grows p q) ∨
      ((o.call c).2.parent = none ∧ (o.call c).1 = .ok none ∧ CleanFinish p c) := by
  have same : ∀ {o' : ProducerOwnership}, o' = o → ∃ q, o'.parent = some q ∧ Grows p q := by
    rintro _ rfl
    exact ⟨p, hp, Grows.refl p⟩
  cases c with
  | attach a =>
    left
    simp only [call, attach, hp]
    split_ifs <;> first | exact same rfl | simp_all
  | begin a k =>
    left
    simp only [call, begin, hp]
    split_ifs <;> exact same rfl
  | recordEffect a k =>
    left
    simp only [call, recordEffect]
    split
    · exact same rfl
    · rename_i q hq
      obtain ⟨-, -, hparent, -, hactive⟩ := active_eq_ok hq
      obtain rfl : p = q := Option.some.inj (hp.symm.trans hparent)
      exact ⟨_, rfl, grows_of_active hactive rfl rfl (Finset.Subset.refl _) rfl⟩
  | recordInputAttempt a k port =>
    left
    simp only [call, recordInputAttempt]
    split
    · exact same rfl
    · rename_i q hq
      obtain ⟨-, -, hparent, -, hactive⟩ := active_eq_ok hq
      obtain rfl : p = q := Option.some.inj (hp.symm.trans hparent)
      exact ⟨_, rfl, grows_of_active hactive rfl rfl (Finset.subset_insert _ _) rfl⟩
  | startCleanup a k =>
    left
    simp only [call, startCleanup, hp]
    split_ifs
    · exact same rfl
    · exact ⟨_, rfl, grows_stopping p⟩
    · exact same rfl
  | detach a =>
    left
    simp only [call, detach, hp]
    split_ifs
    · exact same rfl
    · exact same rfl
    · exact ⟨_, rfl, grows_stopping p⟩
  | finishCleanup plan evidence =>
    simp only [call, finishCleanup, hp]
    split_ifs with hretired hplan hclean hattached
    · exact Or.inl (same rfl)
    · obtain ⟨hstop, rfl⟩ := hplan
      exact Or.inr ⟨rfl, rfl, evidence, rfl, hstop, hclean⟩
    · obtain ⟨hstop, rfl⟩ := hplan
      exact Or.inr ⟨rfl, rfl, evidence, rfl, hstop, hclean⟩
    · exact Or.inl ⟨p, rfl, Grows.refl p⟩
    · exact Or.inl (same rfl)
  | authorizeUnscoped a b => exact Or.inl (same rfl)
  | authorizeObservation a k => exact Or.inl (same rfl)

/-- The finish whose evidence does not cover the plan: the one refused call that changes the
state. -/
def UncleanFinish (o : ProducerOwnership) (c : Call) : Prop :=
  ∃ p evidence, o.retired = false ∧ o.parent = some p ∧ p.stopping = true ∧
    c = .finishCleanup p.plan evidence ∧ ¬ Clean p.plan evidence

theorem map_eq_error {ε α β : Type} {f : α → β} {x : Except ε α} {e : ε}
    (h : x.map f = .error e) : x = .error e := by
  cases x with
  | error e' => simpa [Except.map] using h
  | ok a => simp [Except.map] at h

/-- A refused call leaves the whole state unchanged, an unclean finish apart. -/
theorem call_error {o : ProducerOwnership} {c : Call} {e : OwnershipError}
    (h : (o.call c).1 = .error e) (hc : ¬ o.UncleanFinish c) : (o.call c).2 = o := by
  cases c with
  | attach a =>
    have h := map_eq_error h
    simp only [call, attach] at h ⊢
    split_ifs at h ⊢ <;> rfl
  | begin a k =>
    have h := map_eq_error h
    cases hparent : o.parent with
    | none =>
      simp only [call, begin, hparent] at h ⊢
      split_ifs at h ⊢ <;> rfl
    | some p =>
      simp only [call, begin, hparent] at h ⊢
      split_ifs at h ⊢ <;> rfl
  | recordEffect a k =>
    have h := map_eq_error h
    simp only [call, recordEffect] at h ⊢
    split at h
    · rfl
    · cases h
  | recordInputAttempt a k port =>
    have h := map_eq_error h
    simp only [call, recordInputAttempt] at h ⊢
    split at h
    · rfl
    · cases h
  | startCleanup a k =>
    have h := map_eq_error h
    cases hparent : o.parent with
    | none =>
      simp only [call, startCleanup, hparent] at h ⊢
      split_ifs <;> rfl
    | some p =>
      simp only [call, startCleanup, hparent] at h ⊢
      split_ifs at h ⊢ <;> rfl
  | detach a =>
    simp only [call, detach] at h ⊢
    split_ifs at h ⊢
    rfl
  | finishCleanup plan evidence =>
    have h := map_eq_error h
    cases hparent : o.parent with
    | none =>
      simp only [call, finishCleanup, hparent] at h ⊢
      split_ifs <;> rfl
    | some p =>
      simp only [call, finishCleanup, hparent] at h ⊢
      split_ifs at h ⊢ with hretired hplan hclean
      · rfl
      · obtain ⟨hstop, rfl⟩ := hplan
        exact absurd ⟨p, evidence, by simpa using hretired, hparent, hstop, rfl, hclean⟩ hc
      · rfl
  | authorizeUnscoped a b => rfl
  | authorizeObservation a k => rfl

/-! ## The attachment of a parent -/

/-- A parent belongs to the current attachment, as long as there is one. -/
def Consistent (o : ProducerOwnership) : Prop :=
  ∀ p a, o.parent = some p → o.attachment = some a → p.plan.attachment = a

theorem call_attachment {o : ProducerOwnership} {p : Parent} (hp : o.parent = some p) (c : Call) :
    (o.call c).2.attachment = o.attachment ∨ (o.call c).2.attachment = none := by
  cases c with
  | attach a =>
    left
    simp only [call, attach, hp]
    split_ifs <;> first | rfl | simp_all
  | begin a k =>
    left
    simp only [call, begin, hp]
    split_ifs <;> rfl
  | recordEffect a k => left; simp only [call, recordEffect]; split <;> rfl
  | recordInputAttempt a k port => left; simp only [call, recordInputAttempt]; split <;> rfl
  | startCleanup a k =>
    left
    simp only [call, startCleanup, hp]
    split_ifs <;> rfl
  | detach a =>
    simp only [call, detach]
    split_ifs
    · exact Or.inl rfl
    · exact Or.inl rfl
    · exact Or.inr rfl
  | finishCleanup plan evidence =>
    left
    simp only [call, finishCleanup, hp]
    split_ifs <;> rfl
  | authorizeUnscoped a b => exact Or.inl rfl
  | authorizeObservation a k => exact Or.inl rfl

/-- A parent that was not there before is the fresh parent of the current attachment. -/
theorem call_new_parent {o : ProducerOwnership} {c : Call} {q : Parent} (hnone : o.parent = none)
    (hq : (o.call c).2.parent = some q) : (o.call c).2.attachment = some q.plan.attachment := by
  cases c with
  | attach a => simp only [call, attach] at hq; split_ifs at hq <;> simp [hnone] at hq
  | begin a k =>
    simp only [call, begin, hnone] at hq ⊢
    split_ifs at hq ⊢ with h1 h2 h3 h4 h5
    all_goals first | (rw [hnone] at hq; cases hq) | skip
    cases hq
    exact not_not.mp h4
  | recordEffect a k =>
    simp only [call, recordEffect] at hq
    split at hq
    · rw [hnone] at hq; cases hq
    · rename_i p hp
      rw [(active_eq_ok hp).2.2.1] at hnone; cases hnone
  | recordInputAttempt a k port =>
    simp only [call, recordInputAttempt] at hq
    split at hq
    · rw [hnone] at hq; cases hq
    · rename_i p hp
      rw [(active_eq_ok hp).2.2.1] at hnone; cases hnone
  | startCleanup a k =>
    simp only [call, startCleanup, hnone] at hq
    split_ifs at hq <;> (rw [hnone] at hq; cases hq)
  | detach a =>
    simp only [call, detach, hnone] at hq
    split_ifs at hq <;> first | (rw [hnone] at hq; cases hq) | cases hq
  | finishCleanup plan evidence =>
    simp only [call, finishCleanup, hnone] at hq
    split_ifs at hq <;> (rw [hnone] at hq; cases hq)
  | authorizeUnscoped a b => rw [show (o.call _).2 = o from rfl, hnone] at hq; cases hq
  | authorizeObservation a k => rw [show (o.call _).2 = o from rfl, hnone] at hq; cases hq

theorem consistent_call {o : ProducerOwnership} (h : o.Consistent) (c : Call) :
    (o.call c).2.Consistent := by
  intro q a hq ha
  cases hp : o.parent with
  | none =>
    rw [call_new_parent hp hq] at ha
    exact Option.some.inj ha
  | some p =>
    rcases call_parent hp c with ⟨q', hq', hgrows⟩ | ⟨hgone, -⟩
    · obtain rfl : q' = q := Option.some.inj (hq'.symm.trans hq)
      rw [hgrows.attachment]
      rcases call_attachment hp c with hsame | hnone
      · exact h p a hp (hsame ▸ ha)
      · rw [hnone] at ha; cases ha
    · rw [hgone] at hq; cases hq

theorem Reachable.consistent {o : ProducerOwnership} (h : Reachable o) : o.Consistent := by
  obtain ⟨runtime, start, calls, hnew, rfl⟩ := h
  have hstart : start.Consistent := by
    unfold new at hnew
    split_ifs at hnew
    cases hnew
    intro p a hp
    cases hp
  clear hnew
  induction calls generalizing start with
  | nil => exact hstart
  | cons c calls ih => exact ih _ (consistent_call hstart c)

/-! ## Whole runs -/

theorem exec_keeps {calls : List Call} : ∀ {o : ProducerOwnership} {p : Parent},
    o.parent = some p → o.KeepsParent calls → ∃ q, (o.exec calls).parent = some q ∧ Grows p q := by
  induction calls with
  | nil => intro o p hp _; exact ⟨p, hp, Grows.refl p⟩
  | cons c calls ih =>
    intro o p hp hkeep
    rcases call_parent hp c with ⟨q, hq, hgrows⟩ | ⟨hgone, -⟩
    · obtain ⟨r, hr, hgrows'⟩ := ih hq hkeep.2
      exact ⟨r, hr, hgrows.trans hgrows'⟩
    · exact absurd ⟨by rw [hp]; rfl, hgone⟩ hkeep.1

theorem exec_frozen {calls : List Call} {o : ProducerOwnership} {p : Parent}
    (hp : o.parent = some p) (hstop : p.stopping = true) (hkeep : o.KeepsParent calls) :
    (o.exec calls).parent = some p := by
  obtain ⟨q, hq, hgrows⟩ := exec_keeps hp hkeep
  rw [hq, hgrows.frozen hstop]

theorem call_retired {o : ProducerOwnership} (h : o.retired = true) (c : Call) :
    (o.call c).1 = .error .retired ∧ (o.call c).2 = o := by
  cases c <;>
    simp [call, attach, begin, recordEffect, recordInputAttempt, startCleanup, detach,
      finishCleanup, authorizeUnscoped, authorizeObservation, active, h, Except.map]

theorem exec_retired {calls : List Call} {o : ProducerOwnership} (h : o.retired = true) :
    o.exec calls = o := by
  induction calls with
  | nil => rfl
  | cons c calls ih => rw [exec_cons, (call_retired h c).2, ih]

theorem call_uncleanFinish {o : ProducerOwnership} {c : Call} (h : o.UncleanFinish c) :
    (o.call c).1 = .error .retired ∧ (o.call c).2 = { o with retired := true } := by
  obtain ⟨p, evidence, hretired, hp, hstop, rfl, hclean⟩ := h
  simp [call, finishCleanup, hp, hstop, hclean, hretired, Except.map]

/-- A plan is handed out by freezing the parent it belongs to. -/
theorem call_plan {o : ProducerOwnership} {c : Call} {plan : CleanupPlan}
    (h : (o.call c).1 = .ok (some plan)) : (o.call c).2.parent = some ⟨plan, true⟩ := by
  cases c with
  | startCleanup a k =>
    cases hp : o.parent with
    | none => simp only [call, startCleanup, hp] at h; split_ifs at h <;> cases h
    | some p =>
      simp only [call, startCleanup, hp] at h ⊢
      split_ifs at h ⊢ <;> cases h
      rfl
  | detach a =>
    simp only [call, detach] at h ⊢
    split_ifs at h ⊢
    · cases h
    obtain ⟨p, hp, rfl⟩ := Option.map_eq_some_iff.mp (Except.ok.inj h)
    rw [hp]
    rfl
  | attach a => cases hr : (o.attach a).1 <;> simp [call, hr, Except.map] at h
  | begin a k => cases hr : (o.begin a k).1 <;> simp [call, hr, Except.map] at h
  | recordEffect a k => cases hr : (o.recordEffect a k).1 <;> simp [call, hr, Except.map] at h
  | recordInputAttempt a k port =>
    cases hr : (o.recordInputAttempt a k port).1 <;> simp [call, hr, Except.map] at h
  | finishCleanup p e => cases hr : (o.finishCleanup p e).1 <;> simp [call, hr, Except.map] at h
  | authorizeUnscoped a b => cases hr : o.authorizeUnscoped a b <;> simp [call, hr, Except.map] at h
  | authorizeObservation a k =>
    cases hr : o.authorizeObservation a k <;> simp [call, hr, Except.map] at h

theorem recordInputAttempt_ok {o : ProducerOwnership} {a : Attachment} {k : OperationKey} {port : Nat}
    (h : (o.recordInputAttempt a k port).1 = .ok ()) :
    ∃ q, (o.recordInputAttempt a k port).2.parent = some q ∧ q.plan.key = k ∧
      port ∈ q.plan.inputPorts ∧ q.plan.effectsStarted = true := by
  unfold recordInputAttempt at h ⊢
  split at h
  · cases h
  · rename_i p hp
    exact ⟨_, rfl, (active_eq_ok hp).2.2.2.1, Finset.mem_insert_self _ _, rfl⟩

theorem recordEffect_ok {o : ProducerOwnership} {a : Attachment} {k : OperationKey}
    (h : (o.recordEffect a k).1 = .ok ()) :
    ∃ q, (o.recordEffect a k).2.parent = some q ∧ q.plan.key = k ∧ q.plan.effectsStarted = true := by
  unfold recordEffect at h ⊢
  split at h
  · cases h
  · rename_i p hp
    exact ⟨_, rfl, (active_eq_ok hp).2.2.2.1, rfl⟩

theorem attach_under_parent {o : ProducerOwnership} (hc : o.Consistent) {p : Parent}
    (hp : o.parent = some p) {a : Attachment} (h : (o.attach a).1 = .ok ()) :
    a = p.plan.attachment ∧ (o.attach a).2 = o := by
  simp only [attach, hp] at h ⊢
  split_ifs at h ⊢ with hretired hvalid hsame hbusy
  · exact ⟨(hc p a hp hsame).symm, rfl⟩
  · simp at hbusy

theorem begin_under_parent {o : ProducerOwnership} {p : Parent} (hp : o.parent = some p)
    {a : Attachment} {k : OperationKey} (h : (o.begin a k).1 = .ok ()) :
    k = p.plan.key ∧ (o.begin a k).2 = o := by
  simp only [begin, hp] at h ⊢
  split_ifs at h ⊢ with hretired hvalid hruntime hattached hkey
  exact ⟨hkey.1.symm, rfl⟩

/-! ## Obligations are never lost -/

/-- What holds of the calls that follow a state: obligations are kept, and the next owner waits for
them. -/
structure ObligationsKept (o : ProducerOwnership) : Prop where
  port : ∀ a k port, (o.recordInputAttempt a k port).1 = .ok () → ∀ calls,
    (o.recordInputAttempt a k port).2.KeepsParent calls →
      ∃ q, ((o.recordInputAttempt a k port).2.exec calls).parent = some q ∧ q.plan.key = k ∧
        port ∈ q.plan.inputPorts ∧ q.plan.effectsStarted = true
  effect : ∀ a k, (o.recordEffect a k).1 = .ok () → ∀ calls,
    (o.recordEffect a k).2.KeepsParent calls →
      ∃ q, ((o.recordEffect a k).2.exec calls).parent = some q ∧ q.plan.key = k ∧
        q.plan.effectsStarted = true
  owed : ∀ p, o.parent = some p → ∀ calls, o.KeepsParent calls →
    ∃ q, (o.exec calls).parent = some q ∧ q.plan.key = p.plan.key ∧
      q.plan.attachment = p.plan.attachment ∧ p.plan.inputPorts ⊆ q.plan.inputPorts ∧
      (p.plan.effectsStarted = true → q.plan.effectsStarted = true)
  removed : ∀ p c, o.parent = some p → (o.call c).2.parent = none →
    ∃ evidence, c = .finishCleanup p.plan evidence ∧ (o.call c).1 = .ok none ∧
      evidence.releasedPorts = p.plan.inputPorts ∧
      (p.plan.effectsStarted = true → evidence.stopVerified = true)
  attached : ∀ p a, o.parent = some p → (o.attach a).1 = .ok () →
    a = p.plan.attachment ∧ (o.attach a).2 = o
  began : ∀ p a k, o.parent = some p → (o.begin a k).1 = .ok () →
    k = p.plan.key ∧ (o.begin a k).2 = o
  nextOwner : ∀ c a, (o.call c).2.attachment = some a → o.attachment ≠ some a → o.parent = none
  planned : ∀ c plan, (o.call c).1 = .ok (some plan) → ∀ calls, (o.call c).2.KeepsParent calls →
    ((o.call c).2.exec calls).parent = some ⟨plan, true⟩
  unclean : ∀ c, o.UncleanFinish c → (o.call c).1 = .error .retired ∧
    (o.call c).2 = { o with retired := true } ∧ ∀ calls d,
      (((o.call c).2.exec calls).call d).1 = .error .retired ∧
        (((o.call c).2.exec calls).call d).2 = (o.call c).2
  refused : ∀ c e, (o.call c).1 = .error e → ¬ o.UncleanFinish c → (o.call c).2 = o

theorem obligations_never_lost {o : ProducerOwnership} (h : Reachable o) : ObligationsKept o where
  port := by
    intro a k port hok calls hkeep
    obtain ⟨p, hp, hkey, hport, heff⟩ := recordInputAttempt_ok hok
    obtain ⟨q, hq, hgrows⟩ := exec_keeps hp hkeep
    exact ⟨q, hq, hgrows.key.trans hkey, hgrows.ports hport, hgrows.effects heff⟩
  effect := by
    intro a k hok calls hkeep
    obtain ⟨p, hp, hkey, heff⟩ := recordEffect_ok hok
    obtain ⟨q, hq, hgrows⟩ := exec_keeps hp hkeep
    exact ⟨q, hq, hgrows.key.trans hkey, hgrows.effects heff⟩
  owed := by
    intro p hp calls hkeep
    obtain ⟨q, hq, hgrows⟩ := exec_keeps hp hkeep
    exact ⟨q, hq, hgrows.key, hgrows.attachment, hgrows.ports, hgrows.effects⟩
  removed := by
    intro p c hp hgone
    rcases call_parent hp c with ⟨q, hq, -⟩ | ⟨-, hok, evidence, hc, -, hstop, hports⟩
    · rw [hq] at hgone; cases hgone
    · exact ⟨evidence, hc, hok, hports, hstop⟩
  attached := fun p a hp hok => attach_under_parent h.consistent hp hok
  began := fun p a k hp hok => begin_under_parent hp hok
  nextOwner := by
    intro c a ha hne
    cases hp : o.parent with
    | none => rfl
    | some p =>
      rcases call_attachment hp c with hsame | hnone
      · exact absurd (hsame ▸ ha) hne
      · rw [hnone] at ha; cases ha
  planned := fun c plan hok calls hkeep => exec_frozen (call_plan hok) rfl hkeep
  unclean := by
    intro c hc
    obtain ⟨herr, hstate⟩ := call_uncleanFinish hc
    have hretired : (o.call c).2.retired = true := by rw [hstate]
    refine ⟨herr, hstate, fun calls d => ?_⟩
    rw [exec_retired hretired]
    exact call_retired hretired d
  refused := fun c e herr hc => call_error herr hc

/-- A run that attaches, opens a parent, records a port and detaches before anything is released. -/
theorem obligations_never_lost_detached :
    let a : Attachment := ⟨"01J", 1, 2⟩
    let k : OperationKey := ⟨"rt", "01J", "op"⟩
    let o : ProducerOwnership := ⟨"rt", none, none, none, false⟩
    let calls : List Call := [.attach a, .begin a k, .recordInputAttempt a k 0, .detach a]
    (o.exec calls).parent = some ⟨⟨k, a, {0}, true⟩, true⟩ ∧ ObligationsKept (o.exec calls) := by
  intro a k o calls
  have hparent : (o.exec calls).parent = some ⟨⟨k, a, {0}, true⟩, true⟩ := by decide +kernel
  exact ⟨hparent, obligations_never_lost ⟨"rt", o, calls, rfl, rfl⟩⟩

end ProducerOwnership

end Emucap.Live.Temporal
