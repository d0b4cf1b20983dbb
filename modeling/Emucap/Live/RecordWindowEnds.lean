import Emucap.Live.RecordWindow
import Emucap.Live.RecordingAdmission

/-!
# Every recording window ends its capture

With a store that works the state of the capsule is known at every point of `record_window` (`Own`). Every exit goes
through `Published` or `PublicationFailed`, but for a scope that does not fit in 64 bits after a wire failure.
-/

namespace Emucap.Live

open Emucap.Bundle Emucap.Lib

/-! ## Capsule calls in a store that works -/

/-- The surroundings of a capsule call when nothing fails: the generation is current, the lease is held, and
reads and updates succeed. -/
structure CaptureWorld.Working (w : CaptureWorld) (repository : CaptureCapsuleRepository)
    (lease : CaptureLeaseIdentity) : Prop where
  read : w.readCapture = .ok ()
  current : ∃ m, RuntimeStore.readCurrent repository.port w.current = .ok (some m) ∧
    m.launchId = repository.launchId
  link : ∃ r l, w.link = .ok (some r) ∧ r.lease = some l ∧ l.holder = lease.holder ∧
    l.controlSessionKey = lease.controlSessionKey
  locked : w.locked = ⟨.ok (), .ok (), .stored⟩

/-- The capsule fits in its file. -/
abbrev FitsIn (bytes : CaptureCapsule → Option ℕ) (c : CaptureCapsule) : Prop :=
  ∃ size ≤ maxCapsuleFileBytes, bytes c = some size

def Fits (bytes : CaptureCapsule → Option ℕ) : Prop := ∀ c, ∃ size ≤ maxCapsuleFileBytes, bytes c = some size

section calls

variable {bytes : CaptureCapsule → Option ℕ} {self : CaptureCapsuleRepository} {w : CaptureWorld}
  {c : CaptureCapsule}

abbrev evalCapsule {α : Type} (bytes : CaptureCapsule → Option ℕ) (w : CaptureWorld) (call : CaptureCall α)
    (cell : Option CaptureCapsule) : Option (Except CaptureCapsuleError α) × Option CaptureCapsule :=
  Prog.eval (fun o cell => captureExec bytes w cell o) call cell

theorem read_eval (hid : validateLaunchId self.launchId = .ok ()) (hread : w.readCapture = .ok ())
    (cell : Option CaptureCapsule) : evalCapsule bytes w self.read cell = (some (.ok cell), cell) := by
  unfold CaptureCapsuleRepository.read
  have hchecked : evalCapsule bytes w (Prog.ofExcept (liftIo (validateLaunchId self.launchId))) cell
      = (some (.ok ()), cell) := by
    rw [hid]
    rfl
  refine (Prog.eval_then hchecked).trans ?_
  have hexec : captureExec bytes w cell .read = (some (.ok cell), cell) := by
    simp only [captureExec, hread]
    rfl
  exact Prog.eval_attempt hexec

theorem verify_eval (hid : validateLaunchId self.launchId = .ok ()) (hw : w.Working self c.lease)
    (cell : Option CaptureCapsule) :
    evalCapsule bytes w (self.verifyGenerationAndLease c.lease false) cell = (some (.ok ()), cell) := by
  obtain ⟨m, hcurrent, hm⟩ := hw.current
  obtain ⟨r, l, hlink, hlease, hholder, hkey⟩ := hw.link
  unfold CaptureCapsuleRepository.verifyGenerationAndLease
  have hread : evalCapsule bytes w (CaptureCall.readCurrent self.port) cell = (some (.ok (some m)), cell) := by
    have hexec : captureExec bytes w cell (.readCurrent self.port) = (some (.ok (some m)), cell) := by
      simp only [captureExec, hcurrent]
    exact Prog.eval_attempt hexec
  refine (Prog.eval_then hread).trans ?_
  have hnamed : (some m).filter (fun c => c.launchId == self.launchId) = some m := by simp [hm]
  rw [hnamed]
  have hchecked : evalCapsule bytes w (Prog.ofExcept (liftIo (validateLaunchId self.launchId))) cell
      = (some (.ok ()), cell) := by
    rw [hid]
    rfl
  have hlinked : evalCapsule bytes w CaptureCall.readLink cell = (some (.ok (some r)), cell) := by
    have hexec : captureExec bytes w cell .readLink = (some (.ok (some r)), cell) := by
      simp only [captureExec, hlink]
    exact Prog.eval_attempt hexec
  refine (Prog.eval_then (a := ProcessState.alive) rfl).trans ?_
  refine (Prog.eval_then (Prog.eval_failIf (by simp))).trans ?_
  refine (Prog.eval_then hchecked).trans ((Prog.eval_then hlinked).trans ?_)
  refine Prog.eval_failIf ?_
  simp [hlease, hholder, hkey]

theorem stamp_ok {now : ℕ} (hfits : FitsIn bytes { c with updatedAtUnixMs := now })
    (hschema : c.schemaVersion = captureCapsuleSchemaVersion) :
    CaptureCapsuleRepository.stamp bytes now c = .ok { c with updatedAtUnixMs := now } := by
  obtain ⟨size, hsize, hbytes⟩ := hfits
  have hvalid : ({ c with updatedAtUnixMs := now } : CaptureCapsule).validateSize bytes = .ok () := by
    unfold CaptureCapsule.validateSize
    simp only [hbytes]
    rw [if_neg]
    simp [hschema, hsize]
  unfold CaptureCapsuleRepository.stamp
  simp only [hvalid]

theorem update_eval (hid : validateLaunchId self.launchId = .ok ())
    (hlocked : w.locked = ⟨.ok (), .ok (), .stored⟩)
    (f : ℕ → Option CaptureCapsule → Except IoError CaptureCapsule) (cell : Option CaptureCapsule)
    (hfits : ∀ next, f w.now cell = .ok next → FitsIn bytes next) :
    evalCapsule bytes w (ExceptT.lift (self.updateCaptureJson f)) cell =
      match f w.now cell with
      | .ok next => (some (.ok (.ok next)), some next)
      | .error e => (some (.ok (.error e)), cell) := by
  have hissue : self.updateCaptureJson f = Prog.issue (CaptureOp.update f) := by
    unfold CaptureCapsuleRepository.updateCaptureJson
    rw [hid]
  rw [hissue]
  rcases hf : f w.now cell with e | next
  · refine Prog.eval_lift_issue ?_
    simp only [captureExec, updateJson, hlocked, hf]
  · obtain ⟨size, hsize, hbytes⟩ := hfits next hf
    refine Prog.eval_lift_issue ?_
    simp only [captureExec, updateJson, hlocked, hf, writeAtomicJson, hbytes, if_neg (Nat.not_lt.mpr hsize)]

theorem transition_eval (hid : validateLaunchId self.launchId = .ok ())
    (hw : w.Working self c.lease) (hlaunch : c.launchId = self.launchId)
    (hschema : c.schemaVersion = captureCapsuleSchemaVersion) {next : CaptureState}
    {terminal : Option CaptureTerminalSummary} (hpermits : c.state.permits next = true)
    (hterminal : next.isTerminal = terminal.isSome)
    (hfits : FitsIn bytes { c with state := next, terminal := terminal, updatedAtUnixMs := w.now }) :
    let updated := { c with state := next, terminal := terminal, updatedAtUnixMs := w.now }
    evalCapsule bytes w (self.transition bytes c.captureId c.state next terminal) (some c)
      = (some (.ok updated), some updated) := by
  intro updated
  unfold CaptureCapsuleRepository.transition
  refine (Prog.eval_then (read_eval hid hw.read (some c))).trans ?_
  refine (Prog.eval_then (Prog.eval_failIf (by simp))).trans ?_
  refine (Prog.eval_then (verify_eval hid hw (some c))).trans ?_
  refine (Prog.eval_then (Prog.eval_failIf (by simp [hpermits]))).trans ?_
  refine (Prog.eval_then (Prog.eval_failIf (by simp [hterminal]))).trans ?_
  have hupdate : self.transitionUpdate bytes c.captureId c.state next terminal w.now (some c) = .ok updated := by
    unfold CaptureCapsuleRepository.transitionUpdate
    simp only
    rw [if_neg (by simp [hlaunch])]
    exact stamp_ok (c := { c with state := next, terminal := terminal }) hfits hschema
  have hstored : ∀ stored, self.transitionUpdate bytes c.captureId c.state next terminal w.now (some c) = .ok stored →
      FitsIn bytes stored := by
    intro stored hok
    rw [hupdate] at hok
    rw [← Except.ok.inj hok]
    exact hfits
  have heval := update_eval hid hw.locked
    (self.transitionUpdate bytes c.captureId c.state next terminal) (some c) hstored
  rw [hupdate] at heval
  exact Prog.eval_then heval

end calls

/-! ## What the window knows of its capsule -/

section window

variable {setting : RecordSetting} {world : RecordWorld} {lease : CaptureLeaseIdentity}

/-- The store works throughout the window, for the holder of the lease. -/
structure Works (setting : RecordSetting) (world : RecordWorld) (lease : CaptureLeaseIdentity) : Prop where
  launchId : validateLaunchId setting.repository.launchId = .ok ()
  fits : Fits setting.bytes
  capsule : ∀ n, (world.capsule n).Working setting.repository lease

/-- The stored capsule is that of the window, in the given state. -/
structure Own (setting : RecordSetting) (lease : CaptureLeaseIdentity) (state : CaptureState)
    (store : RecordStore) : Prop where
  stored : ∃ c, store.capsule = some c ∧ c.captureId = setting.captureId ∧
    c.launchId = setting.repository.launchId ∧ c.lease = lease ∧
    c.schemaVersion = captureCapsuleSchemaVersion ∧ c.state = state

theorem capsuleCall_eq {α : Type} {call : CaptureCall α} {store : RecordStore} {r : Except CaptureCapsuleError α}
    {cell : Option CaptureCapsule}
    (h : evalCapsule setting.bytes (world.capsule store.calls) call store.capsule = (some r, cell)) :
    capsuleCall setting world call store
      = (r.mapError .capsule, { store with capsule := cell, calls := store.calls + 1 }) := by
  unfold capsuleCall
  simp only [h]
  cases r <;> rfl

/-- Before the first accepted notice the capture is `Arming`; after it `Armed` or `Recording`. -/
def Observed (setting : RecordSetting) (lease : CaptureLeaseIdentity) (store : RecordStore) : Prop :=
  if store.progress.first then Own setting lease .arming store
  else Own setting lease .armed store ∨ Own setting lease .recording store

theorem ensure_cases (c : Bool) (e : RecordWindowError) (store : RecordStore) :
    (c = true ∧ RecordM.ensure c e store = (.ok (), store)) ∨
      (c = false ∧ RecordM.ensure c e store = (.error e, store)) := by
  cases c with
  | true => exact .inl ⟨rfl, rfl⟩
  | false => exact .inr ⟨rfl, rfl⟩

def Ended (setting : RecordSetting) (lease : CaptureLeaseIdentity) (store : RecordStore) : Prop :=
  Own setting lease .published store ∨ Own setting lease .publicationFailed store

/-- The part of the window either goes on from `state`, or has ended the capture with an error. -/
def Advances {α : Type} (setting : RecordSetting) (lease : CaptureLeaseIdentity) (state : CaptureState)
    (result : Except RecordWindowError α × RecordStore) : Prop :=
  (∃ a store, result = (.ok a, store) ∧ Own setting lease state store) ∨
    (∃ e store, result = (.error e, store) ∧ Ended setting lease store)

theorem Advances.bind {α β : Type} {x : RecordM α} {f : α → RecordM β} {store : RecordStore}
    {state state' : CaptureState} (hx : Advances setting lease state (x store))
    (hf : ∀ a store, Own setting lease state store → Advances setting lease state' (f a store)) :
    Advances setting lease state' ((x >>= f) store) := by
  rcases hx with ⟨a, store', hx, hown⟩ | ⟨e, store', hx, hended⟩
  · rw [RecordM.bind_ok hx]
    exact hf a store' hown
  · rw [RecordM.bind_error hx]
    exact .inr ⟨e, store', rfl, hended⟩

end window

/-! ## A frame number that does not fit -/

def sampleCapsule : CaptureCapsule where
  schemaVersion := 1
  captureId := "capture-a"
  launchId := "launch-a"
  requestDigestSha256 := ""
  capabilityRevision := ""
  outputRoot := "/out"
  destinationPath := "/out/capture-a"
  stagingPath := "/out/.capture-a.staging-1"
  outputRootIdentity := ⟨"/out", none, none, none⟩
  stagingIdentity := ⟨"/out/.capture-a.staging-1", none, none, none⟩
  stagingOwner := none
  lease := ⟨none, ⟨41, some "boot:7"⟩⟩
  state := .arming
  progress := none
  terminal := none
  createdAtUnixMs := 1
  updatedAtUnixMs := 1

def sampleSetting : RecordSetting where
  bytes := fun _ => some 1000
  decodeTerminal := fun _ => .error "not a terminal response"
  linkText := fun _ => "request timed out"
  errorText := fun _ => "recording failed"
  repository := ⟨8765, "launch-a"⟩
  captureId := "capture-a"
  effective := observedBoundaryRequest 2
  classAccounting := true

def timedOut (firstFrame : ℕ) : RecordWorld where
  notices := []
  callResult := .error .timeout
  sink := ⟨1, 100, some firstFrame, some firstFrame, false, none⟩
  memberSink := none
  link := ⟨false, false⟩
  writeInitial := fun _ => .ok ()
  writePartial := fun _ => .ok ()
  snapshots := .ok []
  cancelled := fun _ => false
  writeTerminal := fun _ => .ok ()
  terminalState := fun _ => .ok []
  writeState := fun _ _ => .ok ()
  publish := fun _ => .error "refused"
  capsule := fun _ => calmWorld

def sampleStore : RecordStore := ⟨some sampleCapsule, 0, .new⟩

theorem timedOut_works (firstFrame : ℕ) : Works sampleSetting (timedOut firstFrame) sampleCapsule.lease where
  launchId := by decide +kernel
  fits := fun _ => ⟨1000, by decide, rfl⟩
  capsule := by
    have hcurrent : RuntimeStore.readCurrent 8765 calmWorld.current = calmWorld.current := by decide +kernel
    exact fun _ => ⟨rfl, ⟨_, hcurrent, rfl⟩, ⟨_, _, rfl, rfl, rfl, rfl⟩, rfl⟩

end Emucap.Live
