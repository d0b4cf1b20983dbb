import Emucap.Live.RecordWindowEnds

/-!
# The progress notices of a window and its capsule

Two checkers see every notice: `ProgressState::validate` and the locked update of the capsule. `Reflects` says what
the capsule is after a list of notices, in any surroundings.
-/

namespace Emucap.Live

open Emucap.Bundle Emucap.Lib

/-! ## Capsule calls that succeed -/

section calls

variable {bytes : CaptureCapsule → Option ℕ} {self : CaptureCapsuleRepository} {w : CaptureWorld}
  {cell cell' : Option CaptureCapsule}

theorem read_eval_ok {r : Option CaptureCapsule} (h : evalCapsule bytes w self.read cell = (some (.ok r), cell')) :
    r = cell ∧ cell' = cell := by
  unfold CaptureCapsuleRepository.read at h
  obtain ⟨-, -, h⟩ := Prog.eval_ofExcept_then_ok h
  obtain ⟨r', hexec, hread⟩ := Prog.eval_attempt_ok h
  simp only [captureExec, Prod.mk.injEq, Option.some.injEq] at hexec
  obtain ⟨rfl, rfl⟩ := hexec
  refine ⟨?_, rfl⟩
  cases hcapture : w.readCapture with
  | error e =>
    rw [hcapture] at hread
    cases hread
  | ok u =>
    rw [hcapture] at hread
    exact (Except.ok.inj hread).symm

theorem verify_eval_ok {expected : CaptureLeaseIdentity} {u : Unit}
    (h : evalCapsule bytes w (self.verifyGenerationAndLease expected false) cell = (some (.ok u), cell')) :
    cell' = cell := by
  unfold CaptureCapsuleRepository.verifyGenerationAndLease at h
  obtain ⟨current, t, hread, h⟩ := Prog.eval_then_ok h
  obtain ⟨r, hexec, -⟩ := Prog.eval_attempt_ok hread
  rw [← (Prod.mk.inj hexec).2] at h
  cases hcurrent : current.filter (fun c => c.launchId == self.launchId) with
  | none =>
    rw [hcurrent] at h
    cases h
  | some m =>
    rw [hcurrent] at h
    obtain ⟨state, t, hstate, h⟩ := Prog.eval_then_ok h
    obtain rfl := (Prod.mk.inj hstate).2
    obtain ⟨-, h⟩ := Prog.eval_failIf_then_ok h
    obtain ⟨-, -, h⟩ := Prog.eval_ofExcept_then_ok h
    obtain ⟨link, t', hlink, h⟩ := Prog.eval_then_ok h
    obtain ⟨r, hexec, -⟩ := Prog.eval_attempt_ok hlink
    rw [← (Prod.mk.inj hexec).2] at h
    exact (Prog.eval_failIf_ok h).2

theorem update_eval_ok {f : ℕ → Option CaptureCapsule → Except IoError CaptureCapsule} {next : CaptureCapsule}
    (h : evalCapsule bytes w (ExceptT.lift (self.updateCaptureJson f) >>= fun r => Prog.ofExcept (liftIo r)) cell
      = (some (.ok next), cell')) : f w.now cell = .ok next ∧ cell' = some next := by
  obtain ⟨r, t, hupdate, h⟩ := Prog.eval_then_ok h
  obtain ⟨hr, ht⟩ := Prod.mk.inj h
  have hr : r = .ok next := by
    cases r with
    | error e => cases hr
    | ok c => exact congrArg Except.ok (Except.ok.inj (Option.some.inj hr))
  rw [hr, ht] at hupdate
  cases hid : validateLaunchId self.launchId with
  | error e =>
    have hrefused : self.updateCaptureJson f = .pure (.error e) := by
      unfold CaptureCapsuleRepository.updateCaptureJson
      rw [hid]
    rw [hrefused] at hupdate
    cases hupdate
  | ok u =>
    have hissue : self.updateCaptureJson f = Prog.issue (CaptureOp.update f) := by
      unfold CaptureCapsuleRepository.updateCaptureJson
      rw [hid]
    rw [hissue] at hupdate
    have hexec : updateJson bytes w.locked (fun cell => some (f w.now cell)) cell = (some (.ok next), cell') := by
      cases hrun : updateJson bytes w.locked (fun cell => some (f w.now cell)) cell with
      | mk r t =>
        have heval : evalCapsule bytes w (ExceptT.lift (Prog.issue (CaptureOp.update f))) cell
            = (r.map .ok, t) := by
          cases r with
          | none => exact Prog.eval_cut hrun
          | some r => exact Prog.eval_lift_issue hrun
        obtain ⟨hreply, rfl⟩ := Prod.mk.inj (heval.symm.trans hupdate)
        cases r with
        | none => cases hreply
        | some r => rw [Except.ok.inj (Option.some.inj hreply)]
    rcases updateJson_cases bytes w.locked (fun cell => some (f w.now cell)) cell with
      ⟨e, h⟩ | h | ⟨made, hf, h⟩ | ⟨made, e, -, -, h⟩
    · rw [h] at hexec
      cases hexec
    · rw [h] at hexec
      cases hexec
    · rw [h] at hexec
      obtain ⟨hmade, rfl⟩ := Prod.mk.inj hexec
      obtain rfl : made = next := Except.ok.inj (Option.some.inj hmade)
      exact ⟨Option.some.inj hf, rfl⟩
    · rw [h] at hexec
      cases hexec

theorem transition_eval_ok {captureId : String} {expected next : CaptureState}
    {terminal : Option CaptureTerminalSummary} {stored : CaptureCapsule}
    (h : evalCapsule bytes w (self.transition bytes captureId expected next terminal) cell
      = (some (.ok stored), cell')) :
    ∃ c t, cell = some c ∧ cell' = some { c with state := next, terminal := terminal, updatedAtUnixMs := t } := by
  unfold CaptureCapsuleRepository.transition at h
  obtain ⟨observed, t, hread, h⟩ := Prog.eval_then_ok h
  obtain ⟨hobserved, hcell⟩ := read_eval_ok hread
  rw [hobserved, hcell] at h
  cases cell with
  | none => cases h
  | some observed =>
    obtain ⟨-, h⟩ := Prog.eval_failIf_then_ok h
    obtain ⟨u, t, hverify, h⟩ := Prog.eval_then_ok h
    rw [verify_eval_ok hverify] at h
    obtain ⟨-, h⟩ := Prog.eval_failIf_then_ok h
    obtain ⟨-, h⟩ := Prog.eval_failIf_then_ok h
    obtain ⟨hupdate, hstored⟩ := update_eval_ok h
    unfold CaptureCapsuleRepository.transitionUpdate at hupdate
    simp only at hupdate
    split_ifs at hupdate
    exact ⟨observed, w.now, rfl, by rw [hstored, CaptureCapsuleRepository.stamp_eq_ok hupdate]⟩

theorem updateProgress_eval_ok {captureId : String} {progress : CaptureProgress} {stored : CaptureCapsule}
    (h : evalCapsule bytes w (self.updateProgress bytes captureId progress) cell = (some (.ok stored), cell')) :
    ∃ c t, cell = some c ∧ cell' = some { c with progress := some progress, updatedAtUnixMs := t } := by
  unfold CaptureCapsuleRepository.updateProgress at h
  obtain ⟨observed, t, hread, h⟩ := Prog.eval_then_ok h
  obtain ⟨hobserved, hcell⟩ := read_eval_ok hread
  rw [hobserved, hcell] at h
  cases cell with
  | none => cases h
  | some observed =>
    obtain ⟨-, h⟩ := Prog.eval_failIf_then_ok h
    obtain ⟨u, t, hverify, h⟩ := Prog.eval_then_ok h
    rw [verify_eval_ok hverify] at h
    obtain ⟨hupdate, hstored⟩ := update_eval_ok h
    unfold CaptureCapsuleRepository.progressUpdate at hupdate
    simp only at hupdate
    split_ifs at hupdate
    exact ⟨observed, w.now, rfl, by rw [hstored, CaptureCapsuleRepository.stamp_eq_ok hupdate]⟩

theorem updateProgress_eval_active {c : CaptureCapsule} {progress : CaptureProgress}
    (hid : validateLaunchId self.launchId = .ok ()) (hw : w.Working self c.lease)
    (hactive : CaptureCapsuleRepository.isActive c.state = true)
    (hfits : ∀ next, CaptureCapsuleRepository.progressUpdate bytes c.captureId progress w.now (some c) = .ok next →
      FitsIn bytes next) :
    evalCapsule bytes w (self.updateProgress bytes c.captureId progress) (some c) =
      match CaptureCapsuleRepository.progressUpdate bytes c.captureId progress w.now (some c) with
      | .ok next => (some (.ok next), some next)
      | .error e => (some (.error (.io e)), some c) := by
  unfold CaptureCapsuleRepository.updateProgress
  refine (Prog.eval_then (read_eval hid hw.read (some c))).trans ?_
  refine (Prog.eval_then (Prog.eval_failIf (by simp [hactive]))).trans ?_
  refine (Prog.eval_then (verify_eval hid hw (some c))).trans ?_
  have heval := update_eval hid hw.locked (CaptureCapsuleRepository.progressUpdate bytes c.captureId progress)
    (some c) hfits
  cases hupdate : CaptureCapsuleRepository.progressUpdate bytes c.captureId progress w.now (some c) with
  | error e =>
    rw [hupdate] at heval
    exact Prog.eval_then heval
  | ok next =>
    rw [hupdate] at heval
    exact Prog.eval_then heval

end calls

/-! ## The window -/

section window

variable (setting : RecordSetting) (world : RecordWorld)

/-- The observer meets the notices one after the other, up to the first failure. -/
def observeAll : List WorkingProgress → RecordM Unit
  | [] => pure ()
  | notice :: rest => do
    observer setting world notice
    observeAll rest

/-- `ProgressState::validate` accepts the notice. -/
def validates (state : ProgressState) (notice : WorkingProgress) : Bool :=
  let request := setting.effective.request
  state.accepts setting.captureId request.limits (saturatingAdd request.frames request.warmupFrames)
    (requireExplicitFrames request) notice

/-- The state of `ProgressState::validate` after the notices. -/
def ProgressState.following (notices : List WorkingProgress) : ProgressState :=
  { notices.foldl ProgressState.advance .new with first := notices.isEmpty }

def AllValid (notices : List WorkingProgress) : Prop :=
  ∀ before notice after, notices = before ++ notice :: after →
    validates setting (.following before) notice = true

/-- What a notice says of the progress, stored at the given time. -/
def noticeProgress (notice : WorkingProgress) (now : ℕ) : CaptureProgress :=
  { sequence := notice.sequence
    frame := notice.frame
    frames := notice.frames
    events := notice.events
    bytes := notice.bytes
    observedAtUnixMs := now }

def armedState (request : RecordingRequest) (notices : List WorkingProgress) : CaptureState :=
  if notices.any (beginsRecording request) then .recording else .armed

def stateAfter (request : RecordingRequest) (notices : List WorkingProgress) : CaptureState :=
  if notices.isEmpty then .arming else armedState request notices

/-- The capsule as the window leaves it: in another state, with other progress, and no terminal facts. -/
def CaptureCapsule.moved (start : CaptureCapsule) (state : CaptureState) (progress : Option CaptureProgress)
    (now : ℕ) : CaptureCapsule :=
  { start with state := state, progress := progress, terminal := none, updatedAtUnixMs := now }

/-- What the capsule `start` has become after the notices. -/
structure Reflects (start : CaptureCapsule) (notices : List WorkingProgress) (c : CaptureCapsule) : Prop where
  kept : c = start.moved (stateAfter setting.effective.request notices) c.progress c.updatedAtUnixMs
  progress : ∀ last, notices.getLast? = some last →
    ∃ n, c.progress = some (noticeProgress last (world.capsule n).now)
  fresh : notices = [] → c.progress = none

/-- The capture is about to be armed: it has no progress, and no notice has been seen. -/
structure Begun (start : CaptureCapsule) (store : RecordStore) : Prop where
  stored : store.capsule = some start
  captureId : start.captureId = setting.captureId
  launchId : start.launchId = setting.repository.launchId
  schema : start.schemaVersion = captureCapsuleSchemaVersion
  state : start.state = .arming
  progress : start.progress = none
  terminal : start.terminal = none
  unseen : store.progress = .new

/-- The progress is none, or that of one of the notices. -/
def Shows (notices : List WorkingProgress) (progress : Option CaptureProgress) : Prop :=
  progress = none ∨ ∃ notice ∈ notices, ∃ m, progress = some (noticeProgress notice (world.capsule m).now)

/-- The store works for the calls from the `first`-th to before the `last`-th, and has room for the capsule
with what any of the notices says. -/
structure Serves (start : CaptureCapsule) (notices : List WorkingProgress) (first last : ℕ) : Prop where
  launchId : validateLaunchId setting.repository.launchId = .ok ()
  working : ∀ n, first ≤ n → n < last → (world.capsule n).Working setting.repository start.lease
  room : ∀ n state progress, Shows world notices progress →
    FitsIn setting.bytes (start.moved state progress (world.capsule n).now)

variable {setting world}

/-! ## The notices that were seen -/

theorem bind_run_ok {α β : Type} {x : RecordM α} {f : α → RecordM β} {s s' : RecordStore} {b : β}
    (h : (x >>= f) s = (.ok b, s')) : ∃ a t, x s = (.ok a, t) ∧ f a t = (.ok b, s') := by
  rcases hx : x s with ⟨e | a, t⟩
  · rw [RecordM.bind_error hx] at h
    cases h
  · rw [RecordM.bind_ok hx] at h
    exact ⟨a, t, rfl, h⟩

theorem observeAll_append {notices : List WorkingProgress} (more : List WorkingProgress) {store s : RecordStore}
    (h : observeAll setting world notices store = (.ok (), s)) :
    observeAll setting world (notices ++ more) store = observeAll setting world more s := by
  induction notices generalizing store with
  | nil =>
    obtain rfl := (Prod.mk.inj h).2
    rfl
  | cons notice notices ih =>
    obtain ⟨u, t, hfirst, hrest⟩ := bind_run_ok h
    rw [List.cons_append, observeAll, RecordM.bind_ok hfirst]
    exact ih hrest

theorem observeAll_concat {notices : List WorkingProgress} {notice : WorkingProgress} {store s : RecordStore}
    (h : observeAll setting world (notices ++ [notice]) store = (.ok (), s)) :
    ∃ t, observeAll setting world notices store = (.ok (), t) ∧ observer setting world notice t = (.ok (), s) := by
  induction notices generalizing store with
  | nil =>
    obtain ⟨u, t, hfirst, hrest⟩ := bind_run_ok h
    obtain rfl := (Prod.mk.inj hrest).2
    exact ⟨store, rfl, hfirst⟩
  | cons first notices ih =>
    obtain ⟨u, t, hfirst, hrest⟩ := bind_run_ok h
    obtain ⟨t', hnotices, hnotice⟩ := ih hrest
    exact ⟨t', by rw [observeAll, RecordM.bind_ok hfirst, hnotices], hnotice⟩

theorem following_concat (notices : List WorkingProgress) (notice : WorkingProgress) :
    ProgressState.following (notices ++ [notice]) =
      { (ProgressState.following notices).advance notice with first := false } := by
  simp [ProgressState.following, ProgressState.advance]

theorem AllValid.concat {notices : List WorkingProgress} {notice : WorkingProgress}
    (h : AllValid setting notices) (hnotice : validates setting (.following notices) notice = true) :
    AllValid setting (notices ++ [notice]) := by
  intro before one after heq
  rcases List.eq_nil_or_concat after with rfl | ⟨after, last, rfl⟩
  · obtain ⟨rfl, hone⟩ := List.append_inj' heq rfl
    rw [← (List.cons.inj hone).1]
    exact hnotice
  · have heq' : notices ++ [notice] = (before ++ one :: after) ++ [last] := by simp [heq]
    exact h before one after (List.append_inj' heq' rfl).1

theorem AllValid.of_concat {notices : List WorkingProgress} {notice : WorkingProgress}
    (h : AllValid setting (notices ++ [notice])) :
    AllValid setting notices ∧ validates setting (.following notices) notice = true :=
  ⟨fun before one after heq => h before one (after ++ [notice]) (by simp [heq]), h notices notice [] rfl⟩

/-! ## The store after a notice -/

theorem capsuleCall_run_ok {α : Type} {call : CaptureCall α} {s s' : RecordStore} {a : α}
    (h : capsuleCall setting world call s = (.ok a, s')) :
    evalCapsule setting.bytes (world.capsule s.calls) call s.capsule = (some (.ok a), s'.capsule) ∧
      s'.progress = s.progress ∧ s'.calls = s.calls + 1 := by
  unfold capsuleCall at h
  rcases heval : evalCapsule setting.bytes (world.capsule s.calls) call s.capsule with ⟨_ | e | b, cell⟩
  · simp only [heval] at h
    cases h
  · simp only [heval] at h
    cases h
  · simp only [heval] at h
    cases h
    exact ⟨rfl, rfl, rfl⟩

theorem transition_run_ok {expected next : CaptureState} {s s' : RecordStore} {u : Unit}
    (h : transition setting world expected next none s = (.ok u, s')) :
    (∃ c t, s.capsule = some c ∧
      s'.capsule = some { c with state := next, terminal := none, updatedAtUnixMs := t }) ∧
      s'.progress = s.progress := by
  obtain ⟨stored, t, hcall, hrest⟩ := bind_run_ok h
  obtain rfl := (Prod.mk.inj hrest).2
  obtain ⟨heval, hprogress, -⟩ := capsuleCall_run_ok hcall
  exact ⟨transition_eval_ok heval, hprogress⟩

theorem whenever_run_ok {c : Bool} {x : RecordM Unit} {s s' : RecordStore} {u : Unit}
    (h : RecordM.whenever c x s = (.ok u, s')) : c = true ∧ x s = (.ok u, s') ∨ c = false ∧ s' = s := by
  cases c with
  | true => exact .inl ⟨rfl, h⟩
  | false => exact .inr ⟨rfl, (Prod.mk.inj h).2.symm⟩

theorem arm_run_ok {state : ProgressState} {s s' : RecordStore} {u : Unit}
    (h : arm setting world state s = (.ok u, s')) :
    (state.first = true ∧ (∃ c t, s.capsule = some c ∧
        s'.capsule = some { c with state := .armed, terminal := none, updatedAtUnixMs := t }) ∧
        s'.progress = { s.progress with first := false }) ∨
      state.first = false ∧ s' = s := by
  obtain ⟨hfirst, hrun⟩ | hrest := whenever_run_ok h
  · obtain ⟨u, t, hstep, hmodify⟩ := bind_run_ok hrun
    obtain ⟨hcapsule, hprogress⟩ := transition_run_ok hstep
    obtain rfl := (Prod.mk.inj hmodify).2
    exact .inl ⟨hfirst, hcapsule, by rw [← hprogress]⟩
  · exact .inr hrest

theorem armedState_concat (request : RecordingRequest) (notices : List WorkingProgress) (notice : WorkingProgress) :
    armedState request (notices ++ [notice]) =
      if armedState request notices = .armed ∧ beginsRecording request notice = true then .recording
      else armedState request notices := by
  unfold armedState
  rw [List.any_append]
  by_cases hbefore : notices.any (beginsRecording request) = true
  · simp [hbefore]
  · by_cases hnow : beginsRecording request notice = true
    · simp [hbefore, hnow]
    · simp [hbefore, hnow]

theorem arm_reflects {start c : CaptureCapsule} {notices : List WorkingProgress} {notice : WorkingProgress}
    {s s' : RecordStore} {u : Unit} (hcapsule : s.capsule = some c)
    (hc : Reflects setting world start notices c)
    (h : arm setting world (.following notices)
      { s with progress := (ProgressState.following notices).advance notice } = (.ok u, s')) :
    s'.progress = .following (notices ++ [notice]) ∧ ∃ now, s'.capsule =
      some (start.moved (armedState setting.effective.request notices) c.progress now) := by
  rw [following_concat]
  have hkept := hc.kept
  rcases arm_run_ok h with ⟨hfirst, ⟨c', now, hc', hstored⟩, hprogress⟩ | ⟨hfirst, rfl⟩
  · have hnil : notices = [] := List.isEmpty_iff.mp hfirst
    obtain rfl : c = c' := Option.some.inj (hcapsule.symm.trans hc')
    refine ⟨hprogress, now, ?_⟩
    rw [hstored, hkept, hnil]
    rfl
  · refine ⟨?_, c.updatedAtUnixMs, ?_⟩
    · rw [ProgressState.mk.injEq]
      exact ⟨rfl, rfl, rfl, rfl, rfl, hfirst, rfl⟩
    · have hstate : stateAfter setting.effective.request notices = armedState setting.effective.request notices := by
        rw [stateAfter, if_neg (by simpa [ProgressState.following] using hfirst)]
      rw [← hstate, ← hkept]
      exact hcapsule

theorem begin_reflects {start : CaptureCapsule} {notices : List WorkingProgress} {notice : WorkingProgress}
    {progress : Option CaptureProgress} {now : ℕ} {s s' : RecordStore} {u : Unit}
    (hcapsule : s.capsule = some (start.moved (armedState setting.effective.request notices) progress now))
    (h : RecordM.whenever (s.capsule.any (fun c => c.state == .armed) &&
      beginsRecording setting.effective.request notice) (transition setting world .armed .recording none) s
        = (.ok u, s')) :
    s'.progress = s.progress ∧ ∃ now', s'.capsule =
      some (start.moved (armedState setting.effective.request (notices ++ [notice])) progress now') := by
  have hwhen : (s.capsule.any (fun c => c.state == .armed) && beginsRecording setting.effective.request notice) = true ↔
      armedState setting.effective.request notices = .armed ∧
        beginsRecording setting.effective.request notice = true := by
    rw [hcapsule, Bool.and_eq_true, Option.any_some, beq_iff_eq]
    rfl
  rw [armedState_concat]
  rcases whenever_run_ok h with ⟨hnow, hrun⟩ | ⟨hnot, rfl⟩
  · obtain ⟨⟨c, now', hc, hstored⟩, hprogress⟩ := transition_run_ok hrun
    obtain rfl := Option.some.inj (hcapsule.symm.trans hc)
    rw [if_pos (hwhen.mp hnow)]
    exact ⟨hprogress, now', hstored⟩
  · rw [if_neg (fun hnow => by rw [hwhen.mpr hnow] at hnot; cases hnot)]
    exact ⟨rfl, now, hcapsule⟩

theorem observer_reflects {start c : CaptureCapsule} {notices : List WorkingProgress} {notice : WorkingProgress}
    {s s' : RecordStore} (hprogress : s.progress = .following notices) (hcapsule : s.capsule = some c)
    (hc : Reflects setting world start notices c)
    (h : observer setting world notice s = (.ok (), s')) :
    validates setting (.following notices) notice = true ∧ s'.progress = .following (notices ++ [notice]) ∧
      ∃ c', s'.capsule = some c' ∧ Reflects setting world start (notices ++ [notice]) c' := by
  unfold observer at h
  rw [RecordM.get_bind] at h
  obtain ⟨u, t, hensure, h⟩ := bind_run_ok h
  have hvalid : validates setting s.progress notice = true ∧ t = s := by
    rcases ensure_cases _ _ s with ⟨hc, hrun⟩ | ⟨hc, hrun⟩
    · exact ⟨hc, (Prod.mk.inj (hrun.symm.trans hensure)).2.symm⟩
    · cases hrun.symm.trans hensure
  obtain ⟨hvalid, rfl⟩ := hvalid
  rw [RecordM.modify_bind] at h
  obtain ⟨u, armed, harm, h⟩ := bind_run_ok h
  obtain ⟨cell, read, hread, h⟩ := bind_run_ok h
  obtain ⟨u, begun, hbegin, h⟩ := bind_run_ok h
  rw [RecordM.get_bind] at h
  obtain ⟨stored, done, hupdate, hdone⟩ := bind_run_ok h
  rw [← (Prod.mk.inj hdone).2]
  rw [hprogress] at hvalid harm
  obtain ⟨hseen, now, harmed⟩ := arm_reflects hcapsule hc harm
  obtain ⟨hcell, hread, -⟩ := capsuleCall_run_ok hread
  obtain ⟨hcell, hkept⟩ := read_eval_ok hcell
  rw [hcell, ← hkept] at hbegin
  rw [← hkept] at harmed
  obtain ⟨hbegun, now', hmoved⟩ := begin_reflects harmed hbegin
  obtain ⟨hupdate, hdone, -⟩ := capsuleCall_run_ok hupdate
  obtain ⟨c', now'', hc', hstored⟩ := updateProgress_eval_ok hupdate
  obtain rfl := Option.some.inj (hmoved.symm.trans hc')
  refine ⟨hvalid, by rw [hdone, hbegun, hread, hseen], _, hstored, ?_, ?_, ?_⟩
  · rw [stateAfter, if_neg (by simp)]
    rfl
  · intro last hlast
    rw [List.getLast?_concat, Option.some.injEq] at hlast
    subst hlast
    exact ⟨_, rfl⟩
  · exact fun h => absurd h (by simp)

theorem observeAll_reflects {start : CaptureCapsule} {store : RecordStore} (hbegun : Begun setting start store)
    {notices : List WorkingProgress} {s : RecordStore} (h : observeAll setting world notices store = (.ok (), s)) :
    AllValid setting notices ∧ s.progress = .following notices ∧
      ∃ c, s.capsule = some c ∧ Reflects setting world start notices c := by
  induction notices using List.reverseRecOn generalizing s with
  | nil =>
    obtain rfl := (Prod.mk.inj h).2
    refine ⟨fun before one after heq => absurd heq (by simp), hbegun.unseen, start, hbegun.stored, ?_, ?_, ?_⟩
    · rw [hbegun.progress]
      unfold CaptureCapsule.moved
      rw [← hbegun.progress, ← hbegun.terminal, show stateAfter _ [] = start.state from hbegun.state.symm]
    · exact fun last hlast => absurd hlast (by simp)
    · exact fun _ => hbegun.progress
  | append_singleton notices notice ih =>
    obtain ⟨t, hnotices, hnotice⟩ := observeAll_concat h
    obtain ⟨hvalid, hprogress, c, hcapsule, hc⟩ := ih hnotices
    obtain ⟨haccepted, hseen, hreflects⟩ := observer_reflects hprogress hcapsule hc hnotice
    exact ⟨hvalid.concat haccepted, hseen, hreflects⟩

/-! ## A notice that is accepted gets through -/

theorem nextSequence_following (notices : List WorkingProgress) :
    (ProgressState.following notices).nextSequence = min notices.length (2 ^ 64 - 1) := by
  induction notices using List.reverseRecOn with
  | nil => rfl
  | append_singleton notices notice ih =>
    rw [following_concat, List.length_append, List.length_singleton]
    show saturatingAdd (ProgressState.following notices).nextSequence 1 = _
    rw [ih, saturatingAdd]
    omega

theorem counter_grows {n : ℕ} (h : n + 1 < 2 ^ 64) : min n (2 ^ 64 - 1) < saturatingAdd (min n (2 ^ 64 - 1)) 1 := by
  rw [saturatingAdd]
  omega

theorem not_regressed_of_extends {previous progress : CaptureProgress} (h : previous.Extends progress) :
    CaptureCapsuleRepository.regressed previous progress = false := by
  have hframes := h.frames
  simp only [CaptureCapsuleRepository.regressed, Bool.or_eq_false_iff, decide_eq_false_iff_not, not_le, not_lt]
  refine ⟨⟨⟨⟨⟨h.sequence, h.frame⟩, ?_⟩, ?_⟩, h.events⟩, h.bytes⟩
  · cases hbefore : previous.frames with
    | none => rfl
    | some n =>
      obtain ⟨m, hm, hle⟩ := hframes n hbefore
      simpa [hm] using hle
  · cases hbefore : previous.frames with
    | none => rfl
    | some n =>
      obtain ⟨m, hm, -⟩ := hframes n hbefore
      simp [hm]

/-- What `ProgressState::validate` compares a notice with is what the capsule holds, as long as the counter of
notices has not saturated. -/
theorem not_regressed {notices : List WorkingProgress} {last notice : WorkingProgress} {now now' : ℕ}
    (hvalid : AllValid setting (notices ++ [last]))
    (hnotice : validates setting (.following (notices ++ [last])) notice = true)
    (hlength : (notices ++ [last]).length < 2 ^ 64) :
    CaptureCapsuleRepository.regressed (noticeProgress last now) (noticeProgress notice now') = false := by
  have hlast := hvalid.of_concat.2
  have hnext := nextSequence_following notices
  rw [List.length_append, List.length_singleton] at hlength
  rw [following_concat] at hnotice
  simp only [validates, ProgressState.accepts, ProgressState.advance, Bool.and_eq_true, beq_iff_eq,
    decide_eq_true_eq, Option.all_some] at hlast hnotice
  obtain ⟨⟨⟨⟨⟨⟨⟨⟨⟨⟨⟨-, hsequence⟩, hframe⟩, -⟩, hpresent⟩, -⟩, hframes⟩, hevents⟩, hbytes⟩, -⟩, -⟩, -⟩ := hnotice
  have hlastSequence := hlast.1.1.1.1.1.1.1.1.1.1.2
  have hgrows : last.sequence < notice.sequence := by
    rw [hsequence, hlastSequence, hnext]
    exact counter_grows hlength
  refine not_regressed_of_extends ⟨hgrows, hframe, fun previous hbefore => ?_, of_decide_eq_true hevents,
    of_decide_eq_true hbytes⟩
  · have hbefore : last.frames = some previous := hbefore
    rw [hbefore, Option.some_or] at hframes hpresent
    cases hnow : notice.frames with
    | none => simp [hnow] at hpresent
    | some current =>
      rw [hnow] at hframes
      exact ⟨current, hnow, by simpa using hframes⟩

section serves

variable {start : CaptureCapsule} {store s : RecordStore} {notices : List WorkingProgress}
  {progress : Option CaptureProgress} {state : CaptureState} {first last now : ℕ}

theorem transition_gets_through (hbegun : Begun setting start store)
    (hserves : Serves setting world start notices first last)
    (hcapsule : s.capsule = some (start.moved state progress now)) (hshows : Shows world notices progress)
    (hfirst : first ≤ s.calls) (hlast : s.calls < last) {next : CaptureState} (hpermits : state.permits next = true)
    (hterminal : next.isTerminal = false) :
    ∃ s', transition setting world state next none s = (.ok (), s') ∧ s'.calls = s.calls + 1 := by
  have hworking : (world.capsule s.calls).Working setting.repository (start.moved state progress now).lease :=
    hserves.working s.calls hfirst hlast
  have heval := transition_eval hserves.launchId hworking hbegun.launchId hbegun.schema hpermits
    (show next.isTerminal = (none : Option CaptureTerminalSummary).isSome from hterminal)
    (hserves.room s.calls next progress hshows)
  have hid : (start.moved state progress now).captureId = setting.captureId := hbegun.captureId
  rw [hid, ← hcapsule] at heval
  exact ⟨_, RecordM.bind_ok (capsuleCall_eq heval), rfl⟩

theorem arm_gets_through {c : CaptureCapsule} (hbegun : Begun setting start store)
    (hserves : Serves setting world start notices first last) (hcapsule : s.capsule = some c) {seen : List WorkingProgress}
    (hc : Reflects setting world start seen c) (hshows : Shows world notices c.progress) (hfirst : first ≤ s.calls)
    (hlast : s.calls < last) (state : ProgressState) :
    ∃ s', arm setting world (.following seen) { s with progress := state } = (.ok (), s') ∧
      s.calls ≤ s'.calls ∧ s'.calls ≤ s.calls + 1 := by
  unfold arm
  by_cases hnil : seen = []
  · subst hnil
    have hmoved : s.capsule = some (start.moved .arming c.progress c.updatedAtUnixMs) := by
      rw [hcapsule]
      exact congrArg some hc.kept
    obtain ⟨s', hstep, hcalls⟩ := transition_gets_through (s := { s with progress := state }) hbegun hserves hmoved
      hshows hfirst hlast (show CaptureState.permits .arming .armed = true from rfl) rfl
    have hcalls : s'.calls = s.calls + 1 := hcalls
    exact ⟨_, RecordM.bind_ok hstep, by show s.calls ≤ s'.calls; omega, by show s'.calls ≤ s.calls + 1; omega⟩
  · have hseen : (ProgressState.following seen).first = false := by simpa [ProgressState.following] using hnil
    rw [hseen]
    exact ⟨_, rfl, le_refl _, by show s.calls ≤ s.calls + 1; omega⟩

theorem begin_gets_through (hbegun : Begun setting start store)
    (hserves : Serves setting world start notices first last)
    (hcapsule : s.capsule = some (start.moved state progress now)) (hshows : Shows world notices progress)
    (hfirst : first ≤ s.calls) (hlast : s.calls < last) (begins : Bool) :
    ∃ s', RecordM.whenever (s.capsule.any (fun c => c.state == .armed) && begins)
        (transition setting world .armed .recording none) s = (.ok (), s') ∧
      s.calls ≤ s'.calls ∧ s'.calls ≤ s.calls + 1 := by
  by_cases hnow : (s.capsule.any (fun c => c.state == .armed) && begins) = true
  · have hstate : state = .armed := by
      rw [hcapsule] at hnow
      simpa [CaptureCapsule.moved] using (Bool.and_eq_true_iff.mp hnow).1
    subst hstate
    obtain ⟨s', hstep, hcalls⟩ := transition_gets_through hbegun hserves hcapsule hshows hfirst hlast
      (show CaptureState.permits .armed .recording = true from rfl) rfl
    rw [hnow]
    exact ⟨s', hstep, by omega, by omega⟩
  · rw [Bool.not_eq_true] at hnow
    rw [hnow]
    exact ⟨s, rfl, by omega, by omega⟩

theorem isActive_armedState (request : RecordingRequest) (seen : List WorkingProgress) :
    CaptureCapsuleRepository.isActive (armedState request seen) = true := by
  unfold armedState
  split_ifs <;> rfl

theorem observer_reaches_update {c : CaptureCapsule} {seen : List WorkingProgress} {notice : WorkingProgress}
    (hbegun : Begun setting start store) (hserves : Serves setting world start notices s.calls (s.calls + 4))
    (hprogress : s.progress = .following seen) (hcapsule : s.capsule = some c)
    (hc : Reflects setting world start seen c) (hshows : Shows world notices c.progress)
    (hvalid : validates setting (.following seen) notice = true) :
    ∃ t now, t.capsule = some (start.moved (armedState setting.effective.request (seen ++ [notice])) c.progress now) ∧
      s.calls ≤ t.calls ∧ t.calls < s.calls + 4 ∧
      observer setting world notice s = (capsuleCall setting world (setting.repository.updateProgress setting.bytes
        setting.captureId (noticeProgress notice (world.capsule t.calls).now)) >>= fun _ => pure ()) t := by
  unfold observer
  rw [RecordM.get_bind]
  have haccepted : s.progress.accepts setting.captureId setting.effective.request.limits
      (saturatingAdd setting.effective.request.frames setting.effective.request.warmupFrames)
      (requireExplicitFrames setting.effective.request) notice = true := by
    rw [hprogress]
    exact hvalid
  rw [RecordM.ensure_bind haccepted, RecordM.modify_bind]
  obtain ⟨armed, harm, hfrom, hto⟩ := arm_gets_through hbegun hserves hcapsule hc hshows (le_refl _) (by omega)
    ((ProgressState.following seen).advance notice)
  obtain ⟨hseen, now, harmed⟩ := arm_reflects hcapsule hc harm
  rw [hprogress, RecordM.bind_ok harm]
  have hread : evalCapsule setting.bytes (world.capsule armed.calls) setting.repository.read armed.capsule = _ :=
    read_eval hserves.launchId (hserves.working armed.calls (by omega) (by omega)).read armed.capsule
  rw [RecordM.bind_ok (capsuleCall_eq hread)]
  obtain ⟨begun, hbegin, hfrom', hto'⟩ := begin_gets_through hbegun hserves
    (s := { armed with calls := armed.calls + 1 }) harmed hshows (by show s.calls ≤ armed.calls + 1; omega)
    (by show armed.calls + 1 < s.calls + 4; omega) (beginsRecording setting.effective.request notice)
  have hfrom' : armed.calls + 1 ≤ begun.calls := hfrom'
  have hto' : begun.calls ≤ armed.calls + 1 + 1 := hto'
  obtain ⟨-, now', hmoved⟩ := begin_reflects (s := { armed with calls := armed.calls + 1 }) harmed hbegin
  exact ⟨begun, now', hmoved, by omega, by omega, by rw [RecordM.bind_ok hbegin, RecordM.get_bind]; rfl⟩

theorem Reflects.shows {c : CaptureCapsule} {seen : List WorkingProgress} (hc : Reflects setting world start seen c)
    (hseen : ∀ notice ∈ seen, notice ∈ notices) : Shows world notices c.progress := by
  by_cases hnil : seen = []
  · exact .inl (hc.fresh hnil)
  · have hlast := List.getLast?_eq_some_getLast hnil
    obtain ⟨n, hn⟩ := hc.progress _ hlast
    exact .inr ⟨_, hseen _ (List.getLast_mem hnil), n, hn⟩

theorem observer_eq_update {c : CaptureCapsule} {seen : List WorkingProgress} {notice : WorkingProgress}
    (hbegun : Begun setting start store)
    (hserves : Serves setting world start (seen ++ [notice]) s.calls (s.calls + 4))
    (hprogress : s.progress = .following seen) (hcapsule : s.capsule = some c)
    (hc : Reflects setting world start seen c) (hvalid : validates setting (.following seen) notice = true) :
    ∃ n s', observer setting world notice s = (if c.progress.any fun previous =>
          CaptureCapsuleRepository.regressed previous (noticeProgress notice (world.capsule n).now) then
        .error (.capsule (.io ⟨.invalidData, "capture progress regressed"⟩)) else .ok (), s') := by
  obtain ⟨t, now, hmoved, hfrom, hto, hrun⟩ := observer_reaches_update hbegun hserves hprogress hcapsule hc
    (hc.shows fun notice hin => List.mem_append_left _ hin) hvalid
  refine ⟨t.calls, ?_⟩
  rw [hrun]
  generalize hp : noticeProgress notice (world.capsule t.calls).now = p
  generalize hm : start.moved (armedState setting.effective.request (seen ++ [notice])) c.progress now = m at hmoved
  have hid : m.captureId = setting.captureId := by rw [← hm]; exact hbegun.captureId
  have hworking : (world.capsule t.calls).Working setting.repository m.lease := by
    rw [← hm]
    exact hserves.working t.calls hfrom hto
  have hactive : CaptureCapsuleRepository.isActive m.state = true := by
    rw [← hm]
    exact isActive_armedState _ _
  have hupdate : CaptureCapsuleRepository.progressUpdate setting.bytes m.captureId p (world.capsule t.calls).now
      (some m) = if c.progress.any fun previous => CaptureCapsuleRepository.regressed previous p then
          .error ⟨.invalidData, "capture progress regressed"⟩
        else .ok { m with progress := some p, updatedAtUnixMs := (world.capsule t.calls).now } := by
    have hheld : m.progress = c.progress := by rw [← hm]; rfl
    unfold CaptureCapsuleRepository.progressUpdate
    simp only
    rw [if_neg (by simp [hactive]), hheld]
    split_ifs
    · rfl
    · have hroom := hserves.room t.calls (armedState setting.effective.request (seen ++ [notice])) (some p)
        (.inr ⟨notice, by simp, t.calls, by rw [hp]⟩)
      rw [← hm]
      exact stamp_ok hroom hbegun.schema
  have hfits : ∀ next, CaptureCapsuleRepository.progressUpdate setting.bytes m.captureId p
      (world.capsule t.calls).now (some m) = .ok next → FitsIn setting.bytes next := by
    intro next hnext
    rw [hupdate] at hnext
    split_ifs at hnext
    rw [← Except.ok.inj hnext, ← hm]
    exact hserves.room t.calls _ _ (.inr ⟨notice, by simp, t.calls, by rw [hp]⟩)
  have heval := updateProgress_eval_active hserves.launchId hworking hactive hfits
  rw [hupdate, hid, ← hmoved] at heval
  split_ifs with hregressed
  · rw [if_pos hregressed] at heval
    exact ⟨_, RecordM.bind_error (capsuleCall_eq heval)⟩
  · rw [if_neg hregressed] at heval
    exact ⟨_, RecordM.bind_ok (capsuleCall_eq heval)⟩

theorem observer_gets_through {c : CaptureCapsule} {seen : List WorkingProgress} {notice : WorkingProgress}
    (hbegun : Begun setting start store)
    (hserves : Serves setting world start (seen ++ [notice]) s.calls (s.calls + 4))
    (hprogress : s.progress = .following seen) (hcapsule : s.capsule = some c)
    (hc : Reflects setting world start seen c) (hall : AllValid setting seen) (hlength : seen.length < 2 ^ 64)
    (hvalid : validates setting (.following seen) notice = true) :
    ∃ s', observer setting world notice s = (.ok (), s') := by
  obtain ⟨n, s', hrun⟩ := observer_eq_update hbegun hserves hprogress hcapsule hc hvalid
  refine ⟨s', ?_⟩
  rw [hrun, if_neg]
  rcases List.eq_nil_or_concat seen with rfl | ⟨before, last, hseen⟩
  · simp [hc.fresh rfl]
  · rw [List.concat_eq_append] at hseen
    subst hseen
    obtain ⟨m, hm⟩ := hc.progress last (by simp)
    have hgrows : CaptureCapsuleRepository.regressed (noticeProgress last (world.capsule m).now)
        (noticeProgress notice (world.capsule n).now) = false := not_regressed hall hvalid hlength
    rw [hm, Option.any_some, hgrows]
    exact Bool.false_ne_true

end serves

theorem Serves.within {start : CaptureCapsule} {notices fewer : List WorkingProgress} {first last first' last' : ℕ}
    (h : Serves setting world start notices first last) (hnotices : ∀ notice ∈ fewer, notice ∈ notices)
    (hfirst : first ≤ first') (hlast : last' ≤ last) : Serves setting world start fewer first' last' where
  launchId := h.launchId
  working n hn hn' := h.working n (by omega) (by omega)
  room n state progress hshows := by
    refine h.room n state progress (hshows.imp_right ?_)
    rintro ⟨notice, hin, m, hm⟩
    exact ⟨notice, hnotices notice hin, m, hm⟩

theorem observeAll_gets_through {start : CaptureCapsule} {store : RecordStore} (hbegun : Begun setting start store)
    {notices : List WorkingProgress} (hlength : notices.length ≤ 2 ^ 64) (hall : AllValid setting notices)
    (hserves : ∀ last, Serves setting world start notices 0 last) :
    ∃ s, observeAll setting world notices store = (.ok (), s) := by
  induction notices using List.reverseRecOn with
  | nil => exact ⟨store, rfl⟩
  | append_singleton notices notice ih =>
    rw [List.length_append, List.length_singleton] at hlength
    obtain ⟨hbefore, hvalid⟩ := hall.of_concat
    obtain ⟨s, hs⟩ := ih (Nat.le_of_succ_le hlength) hbefore fun last =>
      (hserves last).within (fun _ hin => List.mem_append_left _ hin) (le_refl 0) (le_refl last)
    obtain ⟨-, hprogress, c, hcapsule, hc⟩ := observeAll_reflects hbegun hs
    obtain ⟨s', hs'⟩ := observer_gets_through hbegun
      ((hserves (s.calls + 4)).within (fun _ hin => hin) (Nat.zero_le _) (le_refl _)) hprogress hcapsule hc hbefore
      (Nat.lt_of_succ_le hlength) hvalid
    refine ⟨s', ?_⟩
    rw [observeAll_append [notice] hs, observeAll, RecordM.bind_ok hs']
    rfl

theorem observer_refuses {notices : List WorkingProgress} {notice : WorkingProgress} {s : RecordStore}
    (hprogress : s.progress = .following notices) (hvalid : validates setting (.following notices) notice = false) :
    observer setting world notice s =
      (.error (.link (.protocol "recording progress identity, sequence, or bounds mismatch")), s) := by
  unfold observer
  rw [RecordM.get_bind]
  have hrefused : s.progress.accepts setting.captureId setting.effective.request.limits
      (saturatingAdd setting.effective.request.frames setting.effective.request.warmupFrames)
      (requireExplicitFrames setting.effective.request) notice = false := by
    rw [hprogress]
    exact hvalid
  rw [hrefused]
  rfl

theorem stateAfter_eq_recording {request : RecordingRequest} {notices : List WorkingProgress} :
    stateAfter request notices = .recording ↔ ∃ notice ∈ notices, notice.phase = some .recording ∨
      notice.phase = none ∧ ∃ n, notice.frames = some n ∧ request.warmupFrames ≤ n := by
  have hany : notices.any (beginsRecording request) = true ↔ ∃ notice ∈ notices, notice.phase = some .recording ∨
      notice.phase = none ∧ ∃ n, notice.frames = some n ∧ request.warmupFrames ≤ n := by
    rw [List.any_eq_true]
    simp only [beginsRecording, Bool.or_eq_true, Bool.and_eq_true, beq_iff_eq, Option.isNone_iff_eq_none,
      Option.any_eq_true, decide_eq_true_eq]
  rw [← hany]
  unfold stateAfter armedState
  by_cases hnil : notices = []
  · simp [hnil]
  · rw [if_neg (by simpa using hnil)]
    split_ifs with h
    · simp [h]
    · simp [h]

end window

/-! ## Refinement -/

/-- The capsule follows the notices. In any surroundings, when the notices have been seen, each was accepted by
`ProgressState::validate`, the capsule holds the values of the last one, and it is `Recording` exactly if one of
them says so. A notice that is accepted gets through, if the store works for its calls and the counter of notices
has not saturated. One that is refused ends the call with the capsule as it is. -/
theorem progress_notices_refine (setting : RecordSetting) (world : RecordWorld) (start : CaptureCapsule)
    (store : RecordStore) (hbegun : Begun setting start store) :
    (∀ notices s, observeAll setting world notices store = (.ok (), s) →
      AllValid setting notices ∧ s.progress = .following notices ∧ ∃ c, s.capsule = some c ∧
        (∀ last, notices.getLast? = some last →
          ∃ n, c.progress = some (noticeProgress last (world.capsule n).now)) ∧
        (c.state = .recording ↔ ∃ notice ∈ notices, notice.phase = some .recording ∨
          notice.phase = none ∧ ∃ n, notice.frames = some n ∧ setting.effective.request.warmupFrames ≤ n)) ∧
    (∀ notices notice s, observeAll setting world notices store = (.ok (), s) → notices.length < 2 ^ 64 →
      validates setting (.following notices) notice = true →
      Serves setting world start (notices ++ [notice]) s.calls (s.calls + 4) →
        ∃ s', observer setting world notice s = (.ok (), s')) ∧
    (∀ notices, notices.length ≤ 2 ^ 64 → AllValid setting notices →
      (∀ last, Serves setting world start notices 0 last) →
        ∃ s, observeAll setting world notices store = (.ok (), s)) ∧
    (∀ notices notice rest s, observeAll setting world notices store = (.ok (), s) →
      validates setting (.following notices) notice = false →
        observeAll setting world (notices ++ notice :: rest) store =
          (.error (.link (.protocol "recording progress identity, sequence, or bounds mismatch")), s)) := by
  refine ⟨fun notices s h => ?_, fun notices notice s h hlength hvalid hserves => ?_,
    fun notices hlength hall hserves => observeAll_gets_through hbegun hlength hall hserves,
    fun notices notice rest s h hvalid => ?_⟩
  · obtain ⟨hall, hprogress, c, hcapsule, hc⟩ := observeAll_reflects hbegun h
    refine ⟨hall, hprogress, c, hcapsule, hc.progress, ?_⟩
    rw [← stateAfter_eq_recording, hc.kept]
    rfl
  · obtain ⟨hall, hprogress, c, hcapsule, hc⟩ := observeAll_reflects hbegun h
    exact observer_gets_through hbegun hserves hprogress hcapsule hc hall hlength hvalid
  · obtain ⟨-, hprogress, -⟩ := observeAll_reflects hbegun h
    rw [observeAll_append (notice :: rest) h, observeAll, RecordM.bind_error (observer_refuses hprogress hvalid)]

/-! ## A counter that has saturated -/

/-- The `i`-th of a stream of notices that say the same. -/
def idleNotice (i : ℕ) : WorkingProgress := ⟨"capture-a", min i (2 ^ 64 - 1), 0, some 0, 0, 0, none⟩

def idleNotices (n : ℕ) : List WorkingProgress := (List.range n).map idleNotice

theorem idleNotices_succ (n : ℕ) : idleNotices (n + 1) = idleNotices n ++ [idleNotice n] := by
  simp [idleNotices, List.range_succ]

theorem idleNotice_valid (n : ℕ) : validates sampleSetting (.following (idleNotices n)) (idleNotice n) = true := by
  have hnext := nextSequence_following (idleNotices n)
  have hlength : (idleNotices n).length = n := by simp [idleNotices]
  rw [hlength] at hnext
  cases n with
  | zero => decide +kernel
  | succ n =>
    rw [idleNotices_succ, following_concat] at hnext ⊢
    generalize hstate : ProgressState.following (idleNotices n) = state at hnext ⊢
    have hsequence : saturatingAdd state.nextSequence 1 = min (n + 1) (2 ^ 64 - 1) := hnext
    simp only [validates, ProgressState.accepts, ProgressState.advance, hsequence, Bool.and_eq_true]
    simp [idleNotice, sampleSetting, phaseTransitionIsValid]

theorem idleNotices_valid (n : ℕ) : AllValid sampleSetting (idleNotices n) := by
  induction n with
  | zero => exact fun before one after heq => absurd heq (by simp [idleNotices])
  | succ n ih =>
    rw [idleNotices_succ]
    exact ih.concat (idleNotice_valid n)

theorem sampleStore_begun : Begun sampleSetting sampleCapsule sampleStore :=
  ⟨rfl, rfl, rfl, rfl, rfl, rfl, rfl, rfl⟩

theorem sample_serves (notices : List WorkingProgress) (first last : ℕ) :
    Serves sampleSetting (timedOut 7) sampleCapsule notices first last where
  launchId := (timedOut_works 7).launchId
  working n _ _ := (timedOut_works 7).capsule n
  room _ _ _ _ := (timedOut_works 7).fits _

theorem saturated_notice_regresses {n : ℕ} (hn : n + 1 = 2 ^ 64) {s : RecordStore}
    (h : observeAll sampleSetting (timedOut 7) (idleNotices (n + 1)) sampleStore = (.ok (), s)) :
    ∃ s', observer sampleSetting (timedOut 7) (idleNotice (n + 1)) s =
      (.error (.capsule (.io ⟨.invalidData, "capture progress regressed"⟩)), s') := by
  obtain ⟨-, hprogress, c, hcapsule, hc⟩ := observeAll_reflects sampleStore_begun h
  obtain ⟨k, s', hrun⟩ := observer_eq_update sampleStore_begun (sample_serves _ _ _) hprogress hcapsule hc
    (idleNotice_valid (n + 1))
  obtain ⟨m, hm⟩ := hc.progress (idleNotice n) (by rw [idleNotices_succ]; simp)
  refine ⟨s', ?_⟩
  rw [hrun, if_pos]
  rw [hm, Option.any_some]
  have hsame : (idleNotice (n + 1)).sequence ≤ (idleNotice n).sequence := by
    show min (n + 1) (2 ^ 64 - 1) ≤ min n (2 ^ 64 - 1)
    omega
  unfold CaptureCapsuleRepository.regressed
  have hsequence : decide ((noticeProgress (idleNotice (n + 1)) ((timedOut 7).capsule k).now).sequence ≤
      (noticeProgress (idleNotice n) ((timedOut 7).capsule m).now).sequence) = true := decide_eq_true hsame
  rw [hsequence]
  simp only [Bool.true_or]

/-- Not every notice that `ProgressState::validate` accepts is taken by the capsule. -/
theorem saturated_counter_regresses :
    ¬ ∀ setting world start store, Begun setting start store →
      ∀ notices notice s, observeAll setting world notices store = (.ok (), s) →
        validates setting (.following notices) notice = true →
        Serves setting world start (notices ++ [notice]) s.calls (s.calls + 4) →
          ∃ s', observer setting world notice s = (.ok (), s') := by
  intro h
  obtain ⟨n, hn⟩ : ∃ n, n + 1 = 2 ^ 64 := ⟨2 ^ 64 - 1, by decide⟩
  have hlength : (idleNotices (n + 1)).length = n + 1 := by simp [idleNotices]
  obtain ⟨s, hs⟩ := observeAll_gets_through sampleStore_begun (le_of_eq (hlength.trans hn))
    (idleNotices_valid (n + 1)) fun last => sample_serves _ 0 last
  obtain ⟨s', hrun⟩ := h _ _ _ _ sampleStore_begun _ (idleNotice (n + 1)) s hs (idleNotice_valid (n + 1))
    (sample_serves _ _ _)
  obtain ⟨s'', hregressed⟩ := saturated_notice_regresses hn hs
  rw [hregressed] at hrun
  cases hrun

theorem progress_notices_refine_three :
    (∃ s, observeAll sampleSetting (timedOut 7) (idleNotices 3) sampleStore = (.ok (), s)) ∧
      ∀ s, observeAll sampleSetting (timedOut 7) (idleNotices 3) sampleStore = (.ok (), s) →
        s.progress = .following (idleNotices 3) ∧
          ∃ s', observer sampleSetting (timedOut 7) (idleNotice 3) s = (.ok (), s') :=
  have hrefines := progress_notices_refine sampleSetting (timedOut 7) sampleCapsule sampleStore
    ⟨rfl, rfl, rfl, rfl, rfl, rfl, rfl, rfl⟩
  ⟨hrefines.2.2.1 (idleNotices 3) (by decide) (idleNotices_valid 3) fun last => sample_serves _ 0 last,
    fun s h => ⟨(hrefines.1 (idleNotices 3) s h).2.1, hrefines.2.1 (idleNotices 3) (idleNotice 3) s h (by decide)
      (idleNotice_valid 3) (sample_serves _ _ _)⟩⟩

end Emucap.Live
