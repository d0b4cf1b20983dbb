import Mathlib.Logic.Relation
import Emucap.Live.CaptureCapsule

/-!
# Runs on one capture capsule

Any number of processes call `create`, `transition`, `update_progress` and `reconcile` on the capsule of one launch, and
their operations interleave in any order. `CaptureMove` is what a single operation can do to the stored capsule; it is
decided inside the locked update alone.

`Advanced` is what a capture can become.
-/

namespace Emucap.Live

open Emucap.Bundle Emucap.Lib

/-! ## The machine -/

inductive CaptureRequest where
  | create (p : CapturePreparation)
  | transition (captureId : String) (expected next : CaptureState) (terminal : Option CaptureTerminalSummary)
  | updateProgress (captureId : String) (progress : CaptureProgress)
  | reconcile (currentLease : CaptureLeaseIdentity) (verifiedBundle : Option VerifiedPublishedRecording)
      (adapterTerminal : Option CaptureTerminalSummary)

def CaptureRequest.createId : CaptureRequest → Option String
  | .create p => some p.captureId
  | _ => none

inductive CaptureReturn where
  | capsule (c : CaptureCapsule)
  | outcome (o : ReconcileOutcome)

def captureExec (bytes : CaptureCapsule → Option ℕ) (w : CaptureWorld) (cell : Option CaptureCapsule) :
    (o : CaptureOp) → Option o.Reply × Option CaptureCapsule
  | .read => (some (w.readCapture.map fun _ => cell), cell)
  | .readCurrent port => (some (RuntimeStore.readCurrent port w.current), cell)
  | .readLink => (some w.link, cell)
  | .processState p => (some (w.processState p), cell)
  | .canonicalize p => (some (w.canonicalize p), cell)
  | .pathExists p => (some (w.pathExists p), cell)
  | .identity p => (some (w.identity p), cell)
  | .createStagingOwner _ => (some w.createStagingOwner, cell)
  | .stagingOwner _ => (some w.stagingOwner, cell)
  | .ulid => (some w.ulid, cell)
  | .rename _ _ => (some w.rename, cell)
  | .now => (some w.now, cell)
  | .update f => updateJson bytes w.locked (fun cell => some (f w.now cell)) cell

def captureBody (bytes : CaptureCapsule → Option ℕ) (repository : CaptureCapsuleRepository) :
    CaptureRequest → CaptureCall CaptureReturn
  | .create p => do return .capsule (← repository.create bytes p)
  | .transition captureId expected next terminal => do
    return .capsule (← repository.transition bytes captureId expected next terminal)
  | .updateProgress captureId progress => do
    return .capsule (← repository.updateProgress bytes captureId progress)
  | .reconcile currentLease verifiedBundle adapterTerminal => do
    return .outcome (← repository.reconcile bytes currentLease verifiedBundle adapterTerminal)

/-- The capsule of one launch and the processes that work on it. -/
def captureMachine (bytes : CaptureCapsule → Option ℕ) (repository : CaptureCapsuleRepository) :
    Machine CaptureOp CaptureOp.Reply (Except CaptureCapsuleError CaptureReturn) (Option CaptureCapsule)
      CaptureWorld CaptureRequest where
  exec o w cell := captureExec bytes w cell o
  body d := captureBody bytes repository d

/-! ## Moves -/

/-- Progress reports of one capture, in order. -/
structure CaptureProgress.Extends (p q : CaptureProgress) : Prop where
  sequence : p.sequence < q.sequence
  frame : p.frame ≤ q.frame
  frames : ∀ n, p.frames = some n → ∃ m, q.frames = some m ∧ n ≤ m
  events : p.events ≤ q.events
  bytes : p.bytes ≤ q.bytes

/-- What one operation of a call can do to the stored capsule. -/
inductive CaptureMove : CaptureRequest → Option CaptureCapsule → Option CaptureCapsule → Prop
  | same (d : CaptureRequest) (cell : Option CaptureCapsule) : CaptureMove d cell cell
  | create {p : CapturePreparation} {cell : Option CaptureCapsule} {new : CaptureCapsule} :
      (∀ old, cell = some old → old.generationMutationBlocker = none) → new.captureId = p.captureId →
      new.state = .prepared → new.progress = none → new.terminal = none →
      CaptureMove (.create p) cell (some new)
  | transition {next : CaptureState} {terminal : Option CaptureTerminalSummary} {old : CaptureCapsule}
      {now : ℕ} :
      old.state.permits next = true → next.isTerminal = terminal.isSome →
      CaptureMove (.transition old.captureId old.state next terminal) (some old)
        (some { old with state := next, terminal := terminal, updatedAtUnixMs := now })
  | updateProgress {progress : CaptureProgress} {old : CaptureCapsule} {now : ℕ} :
      old.state.isTerminal = false → (∀ p, old.progress = some p → p.Extends progress) →
      CaptureMove (.updateProgress old.captureId progress) (some old)
        (some { old with progress := some progress, updatedAtUnixMs := now })
  | reconcile {lease : CaptureLeaseIdentity} {bundle : Option VerifiedPublishedRecording}
      {adapterTerminal : Option CaptureTerminalSummary} {state : CaptureState}
      {terminal : CaptureTerminalSummary} {old : CaptureCapsule} {now : ℕ} :
      old.state.isTerminal = false → state.isTerminal = true →
      CaptureMove (.reconcile lease bundle adapterTerminal) (some old)
        (some { old with state := state, terminal := some terminal, updatedAtUnixMs := now })

def Moves (d : CaptureRequest) (f : ℕ → Option CaptureCapsule → Except IoError CaptureCapsule) : Prop :=
  ∀ now cell next, f now cell = .ok next → CaptureMove d cell (some next)

namespace CaptureCapsuleRepository

variable {bytes : CaptureCapsule → Option ℕ} {self : CaptureCapsuleRepository}

theorem stamp_eq_ok {now : ℕ} {c next : CaptureCapsule} (h : stamp bytes now c = .ok next) :
    next = { c with updatedAtUnixMs := now } := by
  unfold stamp at h
  simp only at h
  split at h
  · exact (Except.ok.inj h).symm
  · cases h

theorem createUpdate_moves {p : CapturePreparation} {new : CaptureCapsule}
    (hid : new.captureId = p.captureId) (hstate : new.state = .prepared) (hprogress : new.progress = none)
    (hterminal : new.terminal = none) : Moves (.create p) (createUpdate new) := by
  intro now cell next h
  unfold createUpdate at h
  rcases cell with _ | old
  · obtain rfl := Except.ok.inj h
    exact .create (fun _ h => (nomatch h)) hid hstate hprogress hterminal
  · simp only at h
    split_ifs at h with hblocker
    obtain rfl := Except.ok.inj h
    refine .create (fun old' hold => ?_) hid hstate hprogress hterminal
    obtain rfl := Option.some.inj hold
    simpa using hblocker

theorem transitionUpdate_moves {captureId : String} {expected next : CaptureState}
    {terminal : Option CaptureTerminalSummary} (hpermits : expected.permits next = true)
    (hterminal : next.isTerminal = terminal.isSome) :
    Moves (.transition captureId expected next terminal)
      (self.transitionUpdate bytes captureId expected next terminal) := by
  intro now cell stored h
  unfold transitionUpdate at h
  rcases cell with _ | old
  · cases h
  · simp only at h
    split_ifs at h with hchanged
    simp only [not_or, not_not] at hchanged
    obtain ⟨rfl, -, rfl⟩ := hchanged
    rw [stamp_eq_ok h]
    exact .transition hpermits hterminal

theorem extends_of_not_regressed {previous progress : CaptureProgress}
    (h : regressed previous progress = false) : previous.Extends progress := by
  simp only [regressed, Bool.or_eq_false_iff, decide_eq_false_iff_not, not_le, not_lt] at h
  obtain ⟨⟨⟨⟨⟨hsequence, hframe⟩, hframes⟩, hpresent⟩, hevents⟩, hbytes⟩ := h
  refine ⟨hsequence, hframe, fun n hn => ?_, hevents, hbytes⟩
  rw [hn] at hframes hpresent
  rcases hm : progress.frames with _ | m
  · rw [hm] at hpresent
    cases hpresent
  · rw [hm] at hframes
    exact ⟨m, rfl, by simpa using hframes⟩

theorem progressUpdate_moves {captureId : String} {progress : CaptureProgress} :
    Moves (.updateProgress captureId progress) (progressUpdate bytes captureId progress) := by
  intro now cell stored h
  unfold progressUpdate at h
  rcases cell with _ | old
  · cases h
  · simp only at h
    split_ifs at h with hchanged hregressed
    simp only [not_or, not_not] at hchanged
    obtain ⟨rfl, hactive⟩ := hchanged
    rw [stamp_eq_ok h]
    refine .updateProgress ?_ fun p hp => extends_of_not_regressed ?_
    · cases hstate : old.state <;> simp_all [isActive, CaptureState.isTerminal]
    · rw [hp] at hregressed
      simpa using hregressed

theorem forceUpdate_moves {captureId launchId : String} {state : CaptureState}
    {terminal : CaptureTerminalSummary} {lease : CaptureLeaseIdentity}
    {bundle : Option VerifiedPublishedRecording} {adapterTerminal : Option CaptureTerminalSummary}
    (hstate : state.isTerminal = true) :
    Moves (.reconcile lease bundle adapterTerminal) (forceUpdate bytes captureId launchId state terminal) := by
  intro now cell stored h
  unfold forceUpdate at h
  rcases cell with _ | old
  · cases h
  · simp only at h
    split_ifs at h with hchanged
    simp only [not_or, not_not] at hchanged
    rw [stamp_eq_ok h]
    exact .reconcile (by simpa using hchanged.2.2) hstate

end CaptureCapsuleRepository

/-! ## What a call knows -/

/-- What a call knows of its own update: not issued yet, refused, or done. -/
inductive CapturePhase where
  | fresh
  | failed
  | stored
  deriving DecidableEq

def captureAllowed (d : CaptureRequest) (g : CapturePhase) : CaptureOp → Prop
  | .update f => g = .fresh ∧ Moves d f
  | _ => True

def captureNext (g : CapturePhase) (o : CaptureOp) : o.Reply → CapturePhase :=
  match o with
  | .update _ => fun
    | .ok _ => .stored
    | .error _ => .failed
  | _ => fun _ => g

/-- A call that returns an error has not stored anything. -/
def capturePost {α : Type} (g : CapturePhase) : Except CaptureCapsuleError α → Prop
  | .ok _ => True
  | .error _ => g ≠ .stored

abbrev captureWp {α : Type} (d : CaptureRequest) (post : CapturePhase → Except CaptureCapsuleError α → Prop)
    (x : CaptureCall α) (g : CapturePhase) : Prop :=
  Prog.wp (captureAllowed d) captureNext (fun _ _ => True) post x g

def Quiet {α : Type} (x : CaptureCall α) : Prop := ∀ d g, captureWp d (fun g' _ => g' = g) x g

namespace Quiet

variable {α β : Type}

theorem bind {x : CaptureCall α} {f : α → CaptureCall β} (hx : Quiet x) (hf : ∀ a, Quiet (f a)) :
    Quiet (x >>= f) := by
  intro d g
  refine Prog.wp_then (hx d g) (fun _ _ h => h) fun g' a h => ?_
  subst h
  exact hf a d g'

theorem ofExcept (r : Except CaptureCapsuleError α) : Quiet (Prog.ofExcept r) := fun _ _ => rfl

theorem throw (e : CaptureCapsuleError) : Quiet (throw e : CaptureCall α) := fun _ _ => rfl

theorem pure (a : α) : Quiet (pure a : CaptureCall α) := fun _ _ => rfl

theorem ite {c : Prop} [Decidable c] {x y : CaptureCall α} (hx : Quiet x) (hy : Quiet y) :
    Quiet (if c then x else y) := by
  split_ifs
  · exact hx
  · exact hy

theorem failIf (c : Prop) [Decidable c] (e : CaptureCapsuleError) :
    Quiet (Prog.failIf c e : CaptureCall Unit) := ite (throw e) (pure ())

theorem readCurrent (port : ℕ) : Quiet (CaptureCall.readCurrent port) := fun _ _ => ⟨trivial, fun _ _ => rfl⟩

theorem readLink : Quiet CaptureCall.readLink := fun _ _ => ⟨trivial, fun _ _ => rfl⟩

theorem processState (p : ProcessIdentity) : Quiet (CaptureCall.processState p) :=
  fun _ _ => ⟨trivial, fun _ _ => rfl⟩

theorem canonicalize (p : FsPath) : Quiet (CaptureCall.canonicalize p) := fun _ _ => ⟨trivial, fun _ _ => rfl⟩

theorem pathExists (p : FsPath) : Quiet (CaptureCall.pathExists p) := fun _ _ => ⟨trivial, fun _ _ => rfl⟩

theorem identity (p : FsPath) : Quiet (CaptureCall.identity p) := fun _ _ => ⟨trivial, fun _ _ => rfl⟩

theorem createStagingOwner (p : FsPath) : Quiet (CaptureCall.createStagingOwner p) :=
  fun _ _ => ⟨trivial, fun _ _ => rfl⟩

theorem stagingOwner (p : FsPath) : Quiet (CaptureCall.stagingOwner p) := fun _ _ => ⟨trivial, fun _ _ => rfl⟩

theorem ulid : Quiet CaptureCall.ulid := fun _ _ => ⟨trivial, fun _ _ => rfl⟩

theorem rename (source target : FsPath) : Quiet (CaptureCall.rename source target) :=
  fun _ _ => ⟨trivial, fun _ _ => rfl⟩

theorem now : Quiet CaptureCall.now := fun _ _ => ⟨trivial, fun _ _ => rfl⟩

theorem seq {d : CaptureRequest} {x : CaptureCall α} {f : α → CaptureCall β} (hx : Quiet x)
    {post : CapturePhase → Except CaptureCapsuleError β → Prop} {g : CapturePhase}
    (herror : ∀ e, post g (.error e)) (hf : ∀ a, captureWp d post (f a) g) : captureWp d post (x >>= f) g := by
  refine Prog.wp_then (hx d g) (fun g' e h => ?_) fun g' a h => ?_
  · subst h
    exact herror e
  · subst h
    exact hf a

end Quiet

namespace CaptureCapsuleRepository

variable {bytes : CaptureCapsule → Option ℕ} {self : CaptureCapsuleRepository} {d : CaptureRequest}

theorem read_quiet : Quiet self.read :=
  (Quiet.ofExcept _).bind fun _ _ _ => ⟨trivial, fun _ _ => rfl⟩

theorem verifyGenerationAndLease_quiet (expected : CaptureLeaseIdentity) (requireAlive : Bool) :
    Quiet (self.verifyGenerationAndLease expected requireAlive) := by
  unfold verifyGenerationAndLease
  refine (Quiet.readCurrent _).bind fun current => ?_
  split
  · exact Quiet.throw _
  · refine (Quiet.ite (Quiet.processState _) (Quiet.pure _)).bind fun _ => ?_
    refine (Quiet.failIf _ _).bind fun _ => (Quiet.ofExcept _).bind fun _ => ?_
    exact Quiet.readLink.bind fun _ => Quiet.failIf _ _

theorem checkRecoveryEligibility_quiet (capsule : CaptureCapsule) (lease : CaptureLeaseIdentity) :
    Quiet (self.checkRecoveryEligibility capsule lease) :=
  (Quiet.processState _).bind fun _ => (Quiet.failIf _ _).bind fun _ =>
    verifyGenerationAndLease_quiet lease false

theorem generationTerminated_quiet : Quiet self.generationTerminated := by
  refine (Quiet.readCurrent _).bind fun current => ?_
  cases current with
  | none => exact Quiet.pure _
  | some current => exact (Quiet.processState _).bind fun _ => Quiet.pure _

theorem quarantineStaging_quiet (capsule : CaptureCapsule) (terminal : CaptureTerminalSummary) :
    Quiet (quarantineStaging capsule terminal) := by
  refine (Quiet.pathExists _).bind fun _ => Quiet.ite (Quiet.pure _) ?_
  refine (Quiet.identity _).bind fun _ => (Quiet.failIf _ _).bind fun _ => ?_
  refine (Quiet.stagingOwner _).bind fun _ => (Quiet.failIf _ _).bind fun _ => ?_
  refine (Quiet.identity _).bind fun _ => (Quiet.failIf _ _).bind fun _ => ?_
  exact Quiet.ulid.bind fun _ => (Quiet.rename _ _).bind fun _ => Quiet.pure _

theorem updateCaptureJson_wp {f : ℕ → Option CaptureCapsule → Except IoError CaptureCapsule} (hf : Moves d f)
    {post : CapturePhase → Except IoError CaptureCapsule → Prop} (hok : ∀ c, post .stored (.ok c))
    (herror : ∀ g e, g ≠ .stored → post g (.error e)) :
    Prog.wp (captureAllowed d) captureNext (fun _ _ => True) post (self.updateCaptureJson f) .fresh := by
  unfold updateCaptureJson
  split
  · exact herror _ _ (by decide)
  · refine ⟨⟨rfl, hf⟩, fun r _ => ?_⟩
    cases r with
    | ok c => exact hok c
    | error e => exact herror .failed e (by decide)

theorem updateCaptureJson_post {f : ℕ → Option CaptureCapsule → Except IoError CaptureCapsule}
    (hf : Moves d f) : captureWp d capturePost (do
      let updated ← ExceptT.lift (self.updateCaptureJson f)
      Prog.ofExcept (liftIo updated)) .fresh := by
  rw [captureWp, Prog.wp_seq, Prog.wp_lift]
  exact updateCaptureJson_wp hf (fun _ => trivial) fun _ _ hg => hg

theorem create_post (p : CapturePreparation) :
    captureWp (.create p) capturePost (self.create bytes p) .fresh := by
  have herror : ∀ e : CaptureCapsuleError, capturePost (α := CaptureCapsule) .fresh (.error e) := nofun
  unfold create
  refine (Quiet.ofExcept _).seq herror fun _ => (Quiet.ofExcept _).seq herror fun _ => ?_
  refine (Quiet.ofExcept _).seq herror fun _ => (verifyGenerationAndLease_quiet _ _).seq herror fun _ => ?_
  refine (Quiet.canonicalize _).seq herror fun root => (Quiet.ofExcept _).seq herror fun _ => ?_
  refine (Quiet.canonicalize _).seq herror fun _ => (Quiet.failIf _ _).seq herror fun _ => ?_
  refine (Quiet.ofExcept _).seq herror fun _ => (Quiet.canonicalize _).seq herror fun _ => ?_
  refine (Quiet.failIf _ _).seq herror fun _ => (Quiet.pathExists _).seq herror fun _ => ?_
  refine (Quiet.failIf _ _).seq herror fun _ => (Quiet.identity _).seq herror fun _ => ?_
  refine (Quiet.identity _).seq herror fun _ => (Quiet.createStagingOwner _).seq herror fun _ => ?_
  refine Quiet.now.seq herror fun _ => (Quiet.ofExcept _).seq herror fun _ => ?_
  rw [captureWp, Prog.wp_seq, Prog.wp_lift]
  refine updateCaptureJson_wp (createUpdate_moves rfl rfl rfl rfl) (fun _ => trivial) fun g e hg => ?_
  simp only
  split_ifs with hkind
  · refine (read_quiet).seq (fun _ => hg) fun current => ?_
    cases current with
    | none => exact hg
    | some current => exact hg
  · exact hg

theorem transition_post (captureId : String) (expected next : CaptureState)
    (terminal : Option CaptureTerminalSummary) :
    captureWp (.transition captureId expected next terminal) capturePost
      (self.transition bytes captureId expected next terminal) .fresh := by
  have herror : ∀ e : CaptureCapsuleError, capturePost (α := CaptureCapsule) .fresh (.error e) := nofun
  unfold transition
  refine (read_quiet).seq herror fun observed => ?_
  cases observed with
  | none => exact herror _
  | some observed =>
    refine (Quiet.failIf _ _).seq herror fun _ => ?_
    refine (verifyGenerationAndLease_quiet _ _).seq herror fun _ => ?_
    refine Prog.wp_failIf_then (fun _ => herror _) fun hpermits => ?_
    refine Prog.wp_failIf_then (fun _ => herror _) fun hterminal => ?_
    exact updateCaptureJson_post (transitionUpdate_moves (by simpa using hpermits) (by simpa using hterminal))

theorem updateProgress_post (captureId : String) (progress : CaptureProgress) :
    captureWp (.updateProgress captureId progress) capturePost
      (self.updateProgress bytes captureId progress) .fresh := by
  have herror : ∀ e : CaptureCapsuleError, capturePost (α := CaptureCapsule) .fresh (.error e) := nofun
  unfold updateProgress
  refine (read_quiet).seq herror fun observed => ?_
  cases observed with
  | none => exact herror _
  | some observed =>
    refine (Quiet.failIf _ _).seq herror fun _ => ?_
    refine (verifyGenerationAndLease_quiet _ _).seq herror fun _ => ?_
    exact updateCaptureJson_post progressUpdate_moves

theorem reconcile_post (lease : CaptureLeaseIdentity) (bundle : Option VerifiedPublishedRecording)
    (adapterTerminal : Option CaptureTerminalSummary) :
    captureWp (.reconcile lease bundle adapterTerminal) capturePost
      (self.reconcile bytes lease bundle adapterTerminal) .fresh := by
  have herror : ∀ e : CaptureCapsuleError, capturePost (α := ReconcileOutcome) .fresh (.error e) := nofun
  have hforce : ∀ (capsule : CaptureCapsule) (state : CaptureState) (terminal : CaptureTerminalSummary)
      (outcome : ReconcileOutcome), state.isTerminal = true →
      captureWp (.reconcile lease bundle adapterTerminal) capturePost (do
        let _ ← self.forceTerminal bytes capsule state terminal
        return outcome) .fresh := by
    intro capsule state terminal outcome hstate
    refine Prog.wp_then (updateCaptureJson_post (forceUpdate_moves hstate)) (fun _ _ h => h) ?_
    exact fun _ _ _ => trivial
  unfold reconcile
  refine (read_quiet).seq herror fun observed => ?_
  cases observed with
  | none => exact herror _
  | some capsule =>
    simp only
    split_ifs with hterminal
    · exact trivial
    refine (checkRecoveryEligibility_quiet _ _).seq herror fun _ => ?_
    cases bundle with
    | some bundle => exact (Quiet.failIf _ _).seq herror fun _ => hforce _ _ _ _ rfl
    | none =>
      refine (Quiet.pathExists _).seq herror fun _ => (Quiet.failIf _ _).seq herror fun _ => ?_
      refine (generationTerminated_quiet).seq herror fun _ => (Quiet.ofExcept _).seq herror fun _ => ?_
      exact (quarantineStaging_quiet _ _).seq herror fun _ => hforce _ _ _ _ rfl

end CaptureCapsuleRepository

/-! ## The rule -/

/-- Terminal facts exist exactly for a terminal state. -/
def CaptureInv (cell : Option CaptureCapsule) : Prop :=
  ∀ c, cell = some c → c.terminal.isSome = c.state.isTerminal

theorem CaptureMove.inv {d : CaptureRequest} {cell cell' : Option CaptureCapsule} (h : CaptureMove d cell cell')
    (hinv : CaptureInv cell) : CaptureInv cell' := by
  intro c hc
  cases h with
  | same => exact hinv c hc
  | create _ _ hstate _ hterminal =>
    obtain rfl := Option.some.inj hc
    rw [hstate, hterminal]
    rfl
  | transition _ hterminal =>
    obtain rfl := Option.some.inj hc
    exact hterminal.symm
  | @updateProgress _ old =>
    obtain rfl := Option.some.inj hc
    exact hinv old rfl
  | reconcile _ hstate =>
    obtain rfl := Option.some.inj hc
    exact hstate.symm

abbrev CaptureEvent := Event (Option CaptureCapsule) CaptureWorld CaptureRequest

def CaptureKnow : CapturePhase → List CaptureEvent → Prop
  | .fresh, own => ∀ e ∈ own, e.before = e.after
  | .failed, own => ∀ e ∈ own, e.oracle.locked.atomic → e.before = e.after
  | .stored, _ => True

theorem CaptureKnow.same {g : CapturePhase} {own : List CaptureEvent} (h : CaptureKnow g own) {e : CaptureEvent}
    (he : e.before = e.after) : CaptureKnow g (e :: own) := by
  cases g with
  | fresh =>
    intro e' he'
    rcases List.mem_cons.mp he' with rfl | he'
    · exact he
    · exact h e' he'
  | failed =>
    intro e' he' hatomic
    rcases List.mem_cons.mp he' with rfl | he'
    · exact he
    · exact h e' he' hatomic
  | stored => trivial

theorem CaptureKnow.failed {own : List CaptureEvent} (h : CaptureKnow .fresh own) {e : CaptureEvent}
    (he : e.oracle.locked.atomic → e.before = e.after) : CaptureKnow .failed (e :: own) := by
  intro e' he' hatomic
  rcases List.mem_cons.mp he' with rfl | he'
  · exact he hatomic
  · exact h e' he'

section rule

variable {bytes : CaptureCapsule → Option ℕ} {d : CaptureRequest} {g : CapturePhase} {w : CaptureWorld}
  {cell : Option CaptureCapsule}

theorem captureExec_move {o : CaptureOp} (h : captureAllowed d g o) :
    CaptureMove d cell (captureExec bytes w cell o).2 := by
  cases o with
  | update f =>
    obtain ⟨-, hmoves⟩ := h
    rcases updateJson_cases bytes w.locked (fun cell => some (f w.now cell)) cell with
      ⟨e, h⟩ | h | ⟨next, hnext, h⟩ | ⟨next, e, hnext, -, h⟩
    · simp only [captureExec, h]
      exact .same d cell
    · simp only [captureExec, h]
      exact .same d cell
    · simp only [captureExec, h]
      exact hmoves _ _ _ (Option.some.inj hnext)
    · simp only [captureExec, h]
      exact hmoves _ _ _ (Option.some.inj hnext)
  | _ => exact .same d cell

theorem captureExec_know {o : CaptureOp} {own : List CaptureEvent} (hallowed : captureAllowed d g o)
    (hknow : CaptureKnow g own) {r : o.Reply} (hr : (captureExec bytes w cell o).1 = some r) (i : ℕ) :
    CaptureKnow (captureNext g o r) (⟨i, d, w, cell, (captureExec bytes w cell o).2⟩ :: own) := by
  cases o with
  | update f =>
    obtain ⟨rfl, -⟩ := hallowed
    cases r with
    | ok c => trivial
    | error e =>
      refine CaptureKnow.failed hknow fun hatomic => ?_
      rcases updateJson_cases bytes w.locked (fun cell => some (f w.now cell)) cell with
        ⟨e, h⟩ | h | ⟨next, hnext, h⟩ | ⟨next, e, hnext, hunconfirmed, h⟩
      · simp only [captureExec, h]
      · simp only [captureExec, h]
      · rw [captureExec, h] at hr
        cases hr
      · exact absurd hatomic hunconfirmed
  | _ => exact hknow.same rfl

end rule

def captureRule (bytes : CaptureCapsule → Option ℕ) (repository : CaptureCapsuleRepository) :
    Rule (captureMachine bytes repository) CapturePhase where
  Inv := CaptureInv
  Guar := CaptureMove
  Know _ g own _ := CaptureKnow g own
  allowed := captureAllowed
  next := captureNext
  can _ _ := True
  post _ g r := capturePost g r
  start _ := .fresh
  keeps _ hinv _ hallowed := ⟨(captureExec_move hallowed).inv hinv, captureExec_move hallowed⟩
  learns i _ _ hknow hallowed hr := ⟨trivial, captureExec_know hallowed hknow hr i⟩
  stable _ _ hknow := hknow
  begins _ _ he := nomatch he
  body d := by
    have hreturn : ∀ {α : Type} {d : CaptureRequest} {x : CaptureCall α} (ret : α → CaptureReturn),
        captureWp d capturePost x .fresh → captureWp d capturePost (x >>= fun a => pure (ret a)) .fresh :=
      fun ret hx => Prog.wp_then hx (fun _ _ h => h) fun _ _ _ => trivial
    cases d with
    | create p => exact hreturn _ (CaptureCapsuleRepository.create_post p)
    | transition captureId expected next terminal =>
      exact hreturn _ (CaptureCapsuleRepository.transition_post captureId expected next terminal)
    | updateProgress captureId progress =>
      exact hreturn _ (CaptureCapsuleRepository.updateProgress_post captureId progress)
    | reconcile lease bundle adapterTerminal =>
      exact hreturn _ (CaptureCapsuleRepository.reconcile_post lease bundle adapterTerminal)

/-! ## The life of one capture -/

/-- One step of a capture's state: along the table, or forced to a terminal state. -/
def CaptureState.Edge (a b : CaptureState) : Prop :=
  a.permits b = true ∨ (a.isTerminal = false ∧ b.isTerminal = true)

theorem CaptureState.not_isTerminal_of_permits {a b : CaptureState} (h : a.permits b = true) :
    a.isTerminal = false := by
  cases a <;> first | rfl | cases b <;> cases h

structure Advanced (old cur : CaptureCapsule) : Prop where
  captureId : cur.captureId = old.captureId
  state : Relation.ReflTransGen CaptureState.Edge old.state cur.state
  terminal : old.state.isTerminal = true → cur = old
  progress : ∀ p, old.progress = some p → ∃ q, cur.progress = some q ∧ (q = p ∨ p.Extends q)

theorem CaptureProgress.Extends.trans {p q r : CaptureProgress} (hpq : p.Extends q) (hqr : q.Extends r) :
    p.Extends r := by
  refine ⟨hpq.sequence.trans hqr.sequence, hpq.frame.trans hqr.frame, fun n hn => ?_,
    hpq.events.trans hqr.events, hpq.bytes.trans hqr.bytes⟩
  obtain ⟨m, hm, hnm⟩ := hpq.frames n hn
  obtain ⟨k, hk, hmk⟩ := hqr.frames m hm
  exact ⟨k, hk, hnm.trans hmk⟩

namespace Advanced

theorem refl (c : CaptureCapsule) : Advanced c c :=
  ⟨rfl, .refl, fun _ => rfl, fun p hp => ⟨p, hp, .inl rfl⟩⟩

theorem trans {a b c : CaptureCapsule} (hab : Advanced a b) (hbc : Advanced b c) : Advanced a c := by
  refine ⟨hbc.captureId.trans hab.captureId, hab.state.trans hbc.state, fun ha => ?_, fun p hp => ?_⟩
  · have hb := hab.terminal ha
    subst hb
    exact hbc.terminal ha
  · obtain ⟨q, hq, hpq⟩ := hab.progress p hp
    obtain ⟨r, hr, hqr⟩ := hbc.progress q hq
    refine ⟨r, hr, ?_⟩
    rcases hpq with rfl | hpq
    · exact hqr
    · rcases hqr with rfl | hqr
      · exact .inr hpq
      · exact .inr (hpq.trans hqr)

end Advanced

/-- A move leaves the capsule, creates a new one over one that does not block, or advances its capture. -/
theorem CaptureMove.elim {d : CaptureRequest} {cell : Option CaptureCapsule} {new : CaptureCapsule}
    (h : CaptureMove d cell (some new)) :
    cell = some new ∨
    (d.createId = some new.captureId ∧ cell ≠ some new) ∨
    ∃ old, cell = some old ∧ Advanced old new := by
  generalize hcell : some new = cell' at h
  cases h with
  | same => exact .inl rfl
  | create hblocker hid hstate _ _ =>
    obtain rfl := Option.some.inj hcell
    refine .inr (.inl ⟨congrArg some hid.symm, fun hsame => ?_⟩)
    have hterminal := (CaptureCapsule.generationMutationBlocker_eq_none.mp (hblocker _ hsame)).1
    rw [hstate] at hterminal
    cases hterminal
  | @transition _ _ old _ hpermits _ =>
    obtain rfl := Option.some.inj hcell
    refine .inr (.inr ⟨old, rfl, rfl, .single (.inl hpermits), fun hterminal => ?_,
      fun p hp => ⟨p, hp, .inl rfl⟩⟩)
    rw [CaptureState.not_isTerminal_of_permits hpermits] at hterminal
    cases hterminal
  | @updateProgress _ old _ hactive hextends =>
    obtain rfl := Option.some.inj hcell
    refine .inr (.inr ⟨old, rfl, rfl, .refl, fun hterminal => ?_,
      fun p hp => ⟨_, rfl, .inr (hextends p hp)⟩⟩)
    rw [hactive] at hterminal
    cases hterminal
  | @reconcile _ _ _ _ _ old _ hopen hclosed =>
    obtain rfl := Option.some.inj hcell
    refine .inr (.inr ⟨old, rfl, rfl, .single (.inr ⟨hopen, hclosed⟩), fun hterminal => ?_,
      fun p hp => ⟨p, hp, .inl rfl⟩⟩)
    rw [hopen] at hterminal
    cases hterminal

theorem CaptureMove.blocker_eq_none {d : CaptureRequest} {old new : CaptureCapsule}
    (h : CaptureMove d (some old) (some new)) (hid : new.captureId ≠ old.captureId) :
    old.generationMutationBlocker = none := by
  cases h with
  | create hblocker _ _ _ _ => exact hblocker old rfl
  | same => exact absurd rfl hid
  | transition _ _ => exact absurd rfl hid
  | updateProgress _ _ => exact absurd rfl hid
  | reconcile _ _ => exact absurd rfl hid

def FreshIds (calls : List CaptureRequest) : Prop :=
  calls.Pairwise fun a b => ∀ id, a.createId = some id → b.createId ≠ some id

theorem FreshIds.unique {calls : List CaptureRequest} (h : FreshIds calls) {i j : ℕ} {a b : CaptureRequest}
    {id : String} (hi : calls[i]? = some a) (hj : calls[j]? = some b) (ha : a.createId = some id)
    (hb : b.createId = some id) : i = j := Distinct.unique h hi hj ha hb

section runs

variable {bytes : CaptureCapsule → Option ℕ} {repository : CaptureCapsuleRepository}

abbrev CaptureSystem := System CaptureOp CaptureOp.Reply (Except CaptureCapsuleError CaptureReturn)
  (Option CaptureCapsule) CaptureWorld CaptureRequest

/-- The history of a run: every stored capsule was created by an operation that stored it, and with fresh
ids the stored capsule is what every earlier capsule of its capture has become. -/
structure CaptureHistory (bytes : CaptureCapsule → Option ℕ) (repository : CaptureCapsuleRepository)
    (s : CaptureSystem) : Prop where
  good : (captureRule bytes repository).Good none s
  created : ∀ e ∈ s.log, ∀ c, e.after = some c →
    ∃ e' ∈ s.log, e'.call.createId = some c.captureId ∧ e'.before ≠ e'.after
  advanced : FreshIds (s.threads.map Prod.fst) → ∀ e ∈ s.log, ∀ old, e.after = some old →
    ∀ cur, s.store = some cur → cur.captureId = old.captureId → Advanced old cur

theorem CaptureHistory.stored {s : CaptureSystem} (h : CaptureHistory bytes repository s) {c : CaptureCapsule}
    (hc : s.store = some c) : ∃ e ∈ s.log, e.after = some c := by
  have hstore := h.good.logged.store
  rcases hlog : s.log with _ | ⟨e, rest⟩
  · rw [hlog, hc] at hstore
    cases hstore
  · rw [hlog, hc] at hstore
    exact ⟨e, List.mem_cons_self, hstore.symm⟩

theorem CaptureHistory.unchanged {s : CaptureSystem} (h : CaptureHistory bytes repository s) {i : ℕ}
    {d : CaptureRequest} {o : CaptureOp} {k : o.Reply → CaptureCall CaptureReturn} {w : CaptureWorld}
    (hi : s.threads[i]? = some (d, some (.call o k))) (hchange : (captureExec bytes w s.store o).2 ≠ s.store) :
    ∀ e ∈ s.log, e.thread = i → e.before = e.after := by
  obtain ⟨g, hknow, hallowed, -⟩ := h.good.know i d _ hi
  cases o with
  | update f =>
    obtain ⟨rfl, -⟩ := hallowed
    exact fun e he hthread => hknow e (List.mem_filter.mpr ⟨he, by simpa using hthread⟩)
  | _ => exact absurd rfl hchange

theorem CaptureHistory.exec {s : CaptureSystem} (h : CaptureHistory bytes repository s) {i : ℕ}
    {d : CaptureRequest} {o : CaptureOp} {k : o.Reply → CaptureCall CaptureReturn} (w : CaptureWorld)
    (hi : s.threads[i]? = some (d, some (.call o k))) :
    CaptureHistory bytes repository ⟨(captureExec bytes w s.store o).2,
      s.threads.set i (d, (captureExec bytes w s.store o).1.map k),
      ⟨i, d, w, s.store, (captureExec bytes w s.store o).2⟩ :: s.log⟩ := by
  have hgood := h.good.exec w hi
  have hmove : CaptureMove d s.store (captureExec bytes w s.store o).2 :=
    (hgood.log _ List.mem_cons_self).2.2
  refine ⟨hgood, ?_, ?_⟩
  · intro e he c hc
    rcases List.mem_cons.mp he with rfl | he
    · rw [show (captureExec bytes w s.store o).2 = some c from hc] at hmove
      rcases hmove.elim with hsame | ⟨hid, hnew⟩ | ⟨old, hold, hadvanced⟩
      · obtain ⟨e, he, hafter⟩ := h.stored hsame
        obtain ⟨e', he', hcreated⟩ := h.created e he c hafter
        exact ⟨e', List.mem_cons_of_mem _ he', hcreated⟩
      · refine ⟨_, List.mem_cons_self, hid, fun hsame => hnew ?_⟩
        exact hsame.trans hc
      · obtain ⟨e, he, hafter⟩ := h.stored hold
        obtain ⟨e', he', hcreated⟩ := h.created e he old hafter
        rw [hadvanced.captureId]
        exact ⟨e', List.mem_cons_of_mem _ he', hcreated⟩
    · obtain ⟨e', he', hcreated⟩ := h.created e he c hc
      exact ⟨e', List.mem_cons_of_mem _ he', hcreated⟩
  · intro hfresh e he old hold cur hcur hid
    rw [Machine.map_fst_set hi] at hfresh
    rcases List.mem_cons.mp he with rfl | he
    · obtain rfl : old = cur := Option.some.inj (hold.symm.trans hcur)
      exact Advanced.refl old
    · rw [show (captureExec bytes w s.store o).2 = some cur from hcur] at hmove
      rcases hmove.elim with hsame | ⟨hcreate, hnew⟩ | ⟨mid, hmid, hadvanced⟩
      · exact h.advanced hfresh e he old hold cur hsame hid
      · obtain ⟨e', he', hcreated, hchanged⟩ := h.created e he old hold
        rw [← hid] at hcreated
        have hthread : e'.thread = i :=
          hfresh.unique (h.good.logged.calls e' he') (by simp [hi]) hcreated hcreate
        have hchange : (captureExec bytes w s.store o).2 ≠ s.store := by
          rw [show (captureExec bytes w s.store o).2 = some cur from hcur]
          exact hnew.symm
        exact absurd (h.unchanged hi hchange e' he' hthread) hchanged
      · have hsame : mid.captureId = old.captureId := hadvanced.captureId.symm.trans hid
        exact (h.advanced hfresh e he old hold mid hmid hsame).trans hadvanced

theorem CaptureHistory.step {s : CaptureSystem} (h : CaptureHistory bytes repository s)
    (a : Action CaptureWorld CaptureRequest) :
    CaptureHistory bytes repository ((captureMachine bytes repository).step s a) := by
  rcases Machine.step_cases (m := captureMachine bytes repository) (s := s) a with
    ⟨d, rfl, hs⟩ | ⟨i, w, d, o, k, rfl, hi, hs⟩ | ⟨-, hs⟩
  · rw [hs]
    refine ⟨h.good.spawn d, h.created, fun hfresh => h.advanced ?_⟩
    rw [List.map_append] at hfresh
    exact (List.pairwise_append.mp hfresh).1
  · rw [hs]
    exact h.exec w hi
  · rw [hs]
    exact h

theorem captureHistory_run (bytes : CaptureCapsule → Option ℕ) (repository : CaptureCapsuleRepository)
    (actions : List (Action CaptureWorld CaptureRequest)) :
    CaptureHistory bytes repository ((captureMachine bytes repository).run (System.init none) actions) := by
  have hinv : CaptureInv none := fun _ h => (nomatch h)
  refine Machine.run_induction ⟨(captureRule bytes repository).sound hinv [], ?_, ?_⟩
    (fun _ a h => h.step a) actions
  · exact fun _ he => (nomatch he)
  · exact fun _ _ he => (nomatch he)

/-- The capsule machine over whole runs. For every interleaving of calls on one launch's capsule:

* every operation of a call makes a `CaptureMove` of that call, so a capsule is replaced by another one only
  when nothing about it blocks the generation, that is when it is terminal with safe cleanup facts;
* terminal facts exist exactly for a terminal state;
* with fresh capture ids, the stored capsule is what every earlier capsule of its capture has become, along
  the edges of the state table and with growing progress, and a terminal capsule is not touched again;
* an operation of a call that returns an error has changed nothing, unless its replacement was carried out
  and reported as failed. -/
theorem capsule_runs (bytes : CaptureCapsule → Option ℕ) (repository : CaptureCapsuleRepository)
    (actions : List (Action CaptureWorld CaptureRequest)) :
    let s := (captureMachine bytes repository).run (System.init none) actions
    (∀ e ∈ s.log, CaptureMove e.call e.before e.after ∧
      ∀ old new, e.before = some old → e.after = some new → new.captureId ≠ old.captureId →
        old.generationMutationBlocker = none ∧ old.state.isTerminal = true ∧
          ∃ t, old.terminal = some t ∧ t.cleanupSafe = true) ∧
    (∀ c, s.store = some c → (c.terminal.isSome ↔ c.state.isTerminal)) ∧
    (FreshIds (actions.filterMap Action.spawned) → ∀ e ∈ s.log, ∀ old, e.after = some old →
      ∀ cur, s.store = some cur → cur.captureId = old.captureId → Advanced old cur) ∧
    (∀ i d error, s.returned i d (.error error) → ∀ e ∈ s.log, e.thread = i →
      e.oracle.locked.atomic → e.before = e.after) := by
  intro s
  have h : CaptureHistory bytes repository s := captureHistory_run bytes repository actions
  refine ⟨fun e he => ?_, fun c hc => ?_, fun hfresh => ?_, fun i d error hreturned e he hthread hatomic => ?_⟩
  · have hmove : CaptureMove e.call e.before e.after := (h.good.log e he).2.2
    refine ⟨hmove, fun old new hold hnew hid => ?_⟩
    rw [hold, hnew] at hmove
    have hblocker := hmove.blocker_eq_none hid
    exact ⟨hblocker, CaptureCapsule.generationMutationBlocker_eq_none.mp hblocker⟩
  · have hterminal : c.terminal.isSome = c.state.isTerminal := h.good.inv c hc
    rw [hterminal]
  · refine h.advanced ?_
    have hcalls := (captureMachine bytes repository).calls_run (System.init none) actions
    rw [hcalls]
    exact hfresh
  · obtain ⟨g, hknow, hpost⟩ := h.good.know i d _ hreturned
    have hown : e ∈ own i s.log := List.mem_filter.mpr ⟨he, by simpa using hthread⟩
    cases g with
    | fresh => exact hknow e hown
    | failed => exact hknow e hown hatomic
    | stored => exact absurd rfl hpost

/-- Surroundings in which every check of the capture code passes. -/
def calmWorld : CaptureWorld where
  readCapture := .ok ()
  current := .ok (some ⟨1, "launch-a", 8765, "mesen", "nes", "game.nes", ⟨40, some "boot:6"⟩⟩)
  link := .ok (some { LinkRecord.new "launch-a" 0 with lease := some ⟨none, ⟨41, some "boot:7"⟩, 1, 1⟩ })
  processState _ := .alive
  canonicalize p := .ok p
  pathExists _ := false
  identity p := .ok ⟨p.display, some 1, some 2, some 3⟩
  createStagingOwner := .ok "01JAAAAAAAAAAAAAAAAAAAAAAA"
  stagingOwner := .ok none
  ulid := "01jbbbbbbbbbbbbbbbbbbbbbbb"
  rename := .ok ()
  now := 5
  locked := ⟨.ok (), .ok (), .stored⟩

/-- A capture is created and moved to `Arming`. -/
def armingRun : List (Action CaptureWorld CaptureRequest) :=
  .spawn (.create {
    captureId := "capture-a"
    requestDigestSha256 := String.ofList (List.replicate 64 'a')
    capabilityRevision := String.ofList (List.replicate 64 'b')
    outputRoot := FsPath.new "/out"
    destinationPath := FsPath.new "/out/capture-a"
    stagingPath := FsPath.new "/out/.capture-a.staging-1"
    lease := ⟨none, ⟨41, some "boot:7"⟩⟩ }) ::
  List.replicate 12 (.step 0 calmWorld) ++
  .spawn (.transition "capture-a" .prepared .arming none) :: List.replicate 4 (.step 1 calmWorld)

theorem capsule_runs_arming :
    let s := (captureMachine (fun _ => some 1000) ⟨8765, "launch-a"⟩).run (System.init none) armingRun
    s.store.map CaptureCapsule.state = some .arming ∧
      ∀ e ∈ s.log, ∀ old, e.after = some old →
        ∀ cur, s.store = some cur → cur.captureId = old.captureId → Advanced old cur := by
  refine ⟨by decide +kernel, (capsule_runs _ _ armingRun).2.2.1 ?_⟩
  have hcalls : (armingRun.filterMap Action.spawned).map CaptureRequest.createId = [some "capture-a", none] :=
    by decide +kernel
  have hpairs : ((armingRun.filterMap Action.spawned).map CaptureRequest.createId).Pairwise
      fun a b => ∀ id, a = some id → b ≠ some id := by
    rw [hcalls]
    simp
  exact List.pairwise_map.mp hpairs

end runs

end Emucap.Live
