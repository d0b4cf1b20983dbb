import Emucap.Live.GenerationRuns

/-!
# Captures and the replacement of their generation

The capture calls look at `current.json` before they take the lock of the capsule: what they store belongs to the
current generation as long as no replacement falls between the two (`ChecksFirst`).
-/

namespace Emucap.Live

open Emucap.Lib

/-! ## Looking at the generation first -/

def namesLaunch (launchId : String) : Except IoError (Option CurrentManifest) → Bool
  | .ok current => current.any fun m => m.launchId == launchId
  | .error _ => false

/-- With a look at `current.json` that named the launch, anything; else no update. -/
def lookAllowed (looked : Bool) : CaptureOp → Prop
  | .update _ => looked = true
  | _ => True

def lookNext (launchId : String) (looked : Bool) (o : CaptureOp) : o.Reply → Bool :=
  match o with
  | .readCurrent _ => fun r => looked || namesLaunch launchId r
  | _ => fun _ => looked

abbrev lookWp {α : Type} (launchId : String) (post : Bool → α → Prop) (x : Prog CaptureOp CaptureOp.Reply α)
    (looked : Bool) : Prop :=
  x.wp lookAllowed (lookNext launchId) (fun _ _ => True) post looked

theorem looked_wp {α : Type} (launchId : String) (x : Prog CaptureOp CaptureOp.Reply α) :
    lookWp launchId (fun looked _ => looked = true) x true := by
  induction x with
  | pure a => rfl
  | call o k ih =>
    cases o with
    | update f => exact ⟨rfl, fun r _ => ih r⟩
    | _ => exact ⟨trivial, fun r _ => ih r⟩

section calls

variable {bytes : CaptureCapsule → Option ℕ} {self : CaptureCapsuleRepository} {α β : Type}

theorem look_then {x : CaptureCall α} {f : α → CaptureCall β}
    (hx : lookWp self.launchId (fun looked r => ∀ a, r = .ok a → looked = true) x false) :
    lookWp self.launchId (fun _ _ => True) (x >>= f : CaptureCall β) false := by
  refine Prog.wp_then hx (fun _ _ _ => trivial) fun looked a h => ?_
  obtain rfl := h a rfl
  exact Prog.wp_mono (fun _ _ _ => trivial) (looked_wp self.launchId (f a))

theorem verifyGenerationAndLease_looks (expected : CaptureLeaseIdentity) (requireAlive : Bool) :
    lookWp self.launchId (fun looked r => ∀ a, r = .ok a → looked = true)
      (self.verifyGenerationAndLease expected requireAlive) false := by
  unfold CaptureCapsuleRepository.verifyGenerationAndLease CaptureCall.readCurrent
  rw [lookWp, Prog.wp_seq, Prog.wp_attempt]
  refine ⟨trivial, fun r _ => ?_⟩
  rcases r with e | current
  · exact nofun
  simp only [liftIo, Except.mapError, lookNext, Bool.false_or]
  rcases hnamed : current.filter (fun c => c.launchId == self.launchId) with _ | m
  · rw [hnamed]
    intro a ha
    cases ha
  · obtain ⟨rfl, hm⟩ := Option.filter_eq_some_iff.mp hnamed
    have hlooked : namesLaunch self.launchId (.ok (some m)) = true := hm
    rw [hlooked]
    exact Prog.wp_mono (fun _ _ h _ _ => h) (looked_wp self.launchId _)

theorem skip_then {x : CaptureCall α} {f : α → CaptureCall β}
    (hx : lookWp self.launchId (fun looked _ => looked = false) x false)
    (hf : ∀ a, lookWp self.launchId (fun _ _ => True) (f a) false) :
    lookWp self.launchId (fun _ _ => True) (x >>= f : CaptureCall β) false := by
  refine Prog.wp_then hx (fun _ _ _ => trivial) fun looked a h => ?_
  subst h
  exact hf a

theorem read_skips : lookWp self.launchId (fun looked _ => looked = false) self.read false := by
  have hid : lookWp self.launchId (fun looked _ => looked = false)
      (Prog.ofExcept (liftIo (validateLaunchId self.launchId)) : CaptureCall Unit) false := rfl
  refine Prog.wp_then hid (fun _ _ h => h) fun looked a h => ?_
  subst h
  exact ⟨trivial, fun _ _ => rfl⟩

theorem failIf_skips (c : Prop) [Decidable c] (e : CaptureCapsuleError) :
    lookWp self.launchId (fun looked _ => looked = false) (Prog.failIf c e : CaptureCall Unit) false := by
  unfold Prog.failIf
  split_ifs
  · rfl
  · rfl

theorem create_looks (p : CapturePreparation) :
    lookWp self.launchId (fun _ _ => True) (self.create bytes p) false := by
  unfold CaptureCapsuleRepository.create
  refine skip_then rfl fun _ => skip_then rfl fun _ => skip_then rfl fun _ => ?_
  exact look_then (verifyGenerationAndLease_looks p.lease true)

theorem transition_looks (captureId : String) (expected next : CaptureState)
    (terminal : Option CaptureTerminalSummary) :
    lookWp self.launchId (fun _ _ => True) (self.transition bytes captureId expected next terminal) false := by
  unfold CaptureCapsuleRepository.transition
  refine skip_then read_skips fun observed => ?_
  rcases observed with _ | observed
  · trivial
  · exact skip_then (failIf_skips _ _) fun _ => look_then (verifyGenerationAndLease_looks observed.lease false)

theorem updateProgress_looks (captureId : String) (progress : CaptureProgress) :
    lookWp self.launchId (fun _ _ => True) (self.updateProgress bytes captureId progress) false := by
  unfold CaptureCapsuleRepository.updateProgress
  refine skip_then read_skips fun observed => ?_
  rcases observed with _ | observed
  · trivial
  · exact skip_then (failIf_skips _ _) fun _ => look_then (verifyGenerationAndLease_looks observed.lease false)

theorem checkRecoveryEligibility_looks (capsule : CaptureCapsule) (lease : CaptureLeaseIdentity) :
    lookWp self.launchId (fun looked r => ∀ a, r = .ok a → looked = true)
      (self.checkRecoveryEligibility capsule lease) false := by
  unfold CaptureCapsuleRepository.checkRecoveryEligibility
  have hstate : lookWp self.launchId (fun looked _ => looked = false)
      (CaptureCall.processState capsule.lease.holder) false := ⟨trivial, fun _ _ => rfl⟩
  refine Prog.wp_then hstate nofun fun looked a h => ?_
  subst h
  refine Prog.wp_then (failIf_skips _ _) nofun fun looked a h => ?_
  subst h
  exact verifyGenerationAndLease_looks lease false

theorem reconcile_looks (lease : CaptureLeaseIdentity) (bundle : Option VerifiedPublishedRecording)
    (adapterTerminal : Option CaptureTerminalSummary) :
    lookWp self.launchId (fun _ _ => True) (self.reconcile bytes lease bundle adapterTerminal) false := by
  unfold CaptureCapsuleRepository.reconcile
  refine skip_then read_skips fun observed => ?_
  rcases observed with _ | capsule
  · trivial
  · simp only
    split_ifs
    · trivial
    · exact look_then (checkRecoveryEligibility_looks capsule lease)

theorem captureBody_looks (d : CaptureRequest) :
    lookWp self.launchId (fun _ _ => True) (captureBody bytes self d) false := by
  have hthen : ∀ {α : Type} {x : CaptureCall α} {f : α → CaptureReturn},
      lookWp self.launchId (fun _ _ => True) x false →
      lookWp self.launchId (fun _ _ => True) (do return f (← x) : CaptureCall CaptureReturn) false :=
    fun hx => Prog.wp_then hx (fun _ _ _ => trivial) fun _ _ _ => trivial
  cases d with
  | create p => exact hthen (create_looks p)
  | transition captureId expected next terminal => exact hthen (transition_looks captureId expected next terminal)
  | updateProgress captureId progress => exact hthen (updateProgress_looks captureId progress)
  | reconcile lease bundle adapterTerminal => exact hthen (reconcile_looks lease bundle adapterTerminal)

end calls

/-! ## Commit and the capsule -/

/-- The processes of the generation are seen to have ended. -/
def GenerationWorld.Ended (w : GenerationWorld) (m : CurrentManifest) : Prop :=
  w.capture.processState m.emulator = .exited ∧ ∀ state, w.bridge m = some state → state = .exited

theorem generationCaptureBlocker_eq_none {port : ℕ} {launchId : String} {w : GenerationWorld} {s : PortStore}
    (h : RuntimeStore.generationCaptureBlocker port launchId w s = .ok none) {c : CaptureCapsule}
    (hc : s.capture launchId = some c) :
    c.generationMutationBlocker = none ∨ ∃ m, s.current = some m ∧ m.launchId = launchId ∧ w.Ended m := by
  unfold RuntimeStore.generationCaptureBlocker at h
  obtain ⟨-, -, h⟩ := bind_eq_ok.mp h
  obtain ⟨-, -, h⟩ := bind_eq_ok.mp h
  rw [hc] at h
  rcases hblocker : c.generationMutationBlocker with _ | reason
  · exact .inl rfl
  · simp only [Option.bind_some, hblocker] at h
    obtain ⟨current, hread, h⟩ := bind_eq_ok.mp h
    obtain rfl := RuntimeStore.readCurrent_stored hread
    refine .inr ?_
    rcases hcurrent : s.current with _ | m
    · rw [hcurrent] at h
      cases h
    · rw [hcurrent] at h
      simp only [Option.any_some, pure, Except.pure, Except.ok.injEq, ite_eq_left_iff, reduceCtorEq, imp_false,
        not_not, Bool.and_eq_true, beq_iff_eq] at h
      obtain ⟨⟨hid, hemulator⟩, hbridge⟩ := h
      refine ⟨m, rfl, hid, hemulator, fun state hstate => ?_⟩
      rw [hstate] at hbridge
      simpa using hbridge

section machine

variable {manifestBytes : CurrentManifest → Option ℕ} {capsuleBytes : CaptureCapsule → Option ℕ} {port : ℕ}
  {w : GenerationWorld} {s : PortStore}

/-- Only a commit that passes its checks changes `current.json`. -/
theorem commit_of_replaces {o : GenerationOp}
    (h : (generationExec manifestBytes capsuleBytes port w s o).2.current ≠ s.current) :
    ∃ prepared manifest, o = .commit prepared manifest ∧ prepared.commitCheck manifest w s = .ok () := by
  cases o with
  | readCurrent => exact absurd rfl h
  | createDir launchId =>
    refine absurd ?_ h
    simp only [generationExec]
    rcases published_cases w.publish (s.createDir launchId) s with hp | ⟨e, hp | hp⟩ <;> rw [hp] <;> rfl
  | writeAuth launchId token =>
    refine absurd ?_ h
    simp only [generationExec]
    rcases s.generations launchId with _ | made
    · rfl
    · rcases published_cases w.publish (s.setGeneration launchId (some { made with auth := some token })) s with
        hp | ⟨e, hp | hp⟩ <;> simp only [hp] <;> rfl
  | commit prepared manifest =>
    rcases PreparedGeneration.commit_cases manifestBytes prepared manifest w s with ⟨e, hcommit⟩ | ⟨hcheck, -⟩
    · refine absurd ?_ h
      simp only [generationExec, hcommit]
    · exact ⟨prepared, manifest, rfl, hcheck⟩
  | remove launchId =>
    refine absurd ?_ h
    simp only [generationExec]
    rcases w.remove with e | ⟨⟩ <;> rfl
  | capture launchId o => exact absurd (capturedExec_frame capsuleBytes w s launchId o).1 h

/-! ## Runs without a replacement in between -/

abbrev GenerationSystem :=
  System GenerationOp GenerationOp.Reply GenerationReturn PortStore GenerationWorld GenerationCall

def generationLookAllowed (launchId : String) (looked : Bool) : GenerationOp → Prop
  | .capture id o => id = launchId ∧ lookAllowed looked o
  | _ => False

def generationLookNext (launchId : String) (looked : Bool) (o : GenerationOp) : o.Reply → Bool :=
  match o with
  | .capture _ o => lookNext launchId looked o
  | _ => fun _ => looked

/-- The rest of a capture call works on its own generation, and stores only after a look at `current.json`
that names it, be it in the past (`looked`) or to come. -/
def LooksAt (launchId : String) (looked : Bool) (p : GenerationProg GenerationReturn) : Prop :=
  p.wp (generationLookAllowed launchId) (generationLookNext launchId) (fun _ _ => True) (fun _ _ => True) looked

/-- The rest of a capture call looks at `current.json` before it stores. -/
def ChecksFirst (launchId : String) (p : GenerationProg GenerationReturn) : Prop := LooksAt launchId false p

theorem generationBody_checksFirst (launchId : String) (d : CaptureRequest) :
    ChecksFirst launchId (generationBody capsuleBytes port (.capture launchId d)) := by
  have hbody : lookWp launchId (fun _ _ => True) (captureBody capsuleBytes ⟨port, launchId⟩ d) false :=
    @captureBody_looks capsuleBytes ⟨port, launchId⟩ d
  have hprogram : (captureProgram capsuleBytes port launchId d).wp (generationLookAllowed launchId)
      (generationLookNext launchId) (fun _ _ => True) (fun _ _ => True) false := by
    unfold captureProgram
    exact Prog.wp_embed (fun _ _ h => ⟨rfl, h⟩) (fun _ _ _ => rfl) (fun _ _ _ => trivial) hbody
  exact Prog.wp_bind.mpr (Prog.wp_mono (fun _ _ _ => trivial) hprogram)

/-- No replacement falls between the look of a capture call at the generation and its update: when
`current.json` changes, every call in the replaced generation has its look still to come, or nothing left to
store. -/
def Uninterrupted (m : Machine GenerationOp GenerationOp.Reply GenerationReturn PortStore GenerationWorld
    GenerationCall) (actions : List (Action GenerationWorld GenerationCall)) : Prop :=
  ∀ earlier a later, actions = earlier ++ a :: later →
    let s := m.run (System.init .empty) earlier
    (m.step s a).store.current ≠ s.store.current →
    ∀ (i : ℕ) launchId r p, s.threads[i]? = some (.capture launchId r, some p) →
      s.store.currentId = some launchId → ChecksFirst launchId p

/-- What holds along a run without a replacement in between. -/
structure LookInv (s : GenerationSystem) : Prop where
  looks : ∀ (i : ℕ) launchId r p, s.threads[i]? = some (.capture launchId r, some p) →
    ∃ looked, LooksAt launchId looked p ∧ (looked = true → s.store.currentId = some launchId)
  stored : ∀ e ∈ s.log, ∀ launchId r, e.call = .capture launchId r →
    e.after.capture launchId ≠ e.before.capture launchId → e.before.currentId = some launchId

theorem LookInv.updates {s : GenerationSystem} (h : LookInv s) {i : ℕ} {launchId id : String}
    {r : CaptureRequest} {f : ℕ → Option CaptureCapsule → Except IoError CaptureCapsule}
    {k : Except IoError CaptureCapsule → GenerationProg GenerationReturn}
    (hi : s.threads[i]? = some (.capture launchId r, some (.call (.capture id (.update f)) k))) :
    s.store.currentId = some launchId := by
  obtain ⟨looked, hlooks, hcurrent⟩ := h.looks i launchId r _ hi
  exact hcurrent hlooks.1.2

theorem capturedExec_store {id : String} {o : CaptureOp} (ho : ∀ f, o ≠ .update f) :
    (capturedExec capsuleBytes id w s o).2 = s := by
  cases o with
  | update f => exact absurd rfl (ho f)
  | _ => rfl

theorem lookNext_true {launchId id : String} {looked : Bool} {o : CaptureOp} {r : o.Reply}
    (hr : (capturedExec capsuleBytes id w s o).1 = some r) (hnext : lookNext launchId looked o r = true) :
    looked = true ∨ s.currentId = some launchId := by
  cases o with
  | readCurrent port' =>
    obtain rfl := Option.some.inj hr
    simp only [lookNext, Bool.or_eq_true] at hnext
    refine hnext.imp_right fun hnames => ?_
    rcases hread : RuntimeStore.readCurrent port' (w.read.map fun _ => s.current) with e | current
    · rw [hread] at hnames
      cases hnames
    · rw [hread] at hnames
      obtain rfl := RuntimeStore.readCurrent_stored hread
      rcases hcurrent : s.current with _ | m
      · rw [hcurrent] at hnames
        cases hnames
      · rw [hcurrent] at hnames
        simp only [namesLaunch, Option.any_some, beq_iff_eq] at hnames
        simp [PortStore.currentId, hcurrent, hnames]
  | _ => exact .inl hnext

theorem LookInv.captures {s : GenerationSystem} (h : LookInv s) {i : ℕ} {launchId : String}
    {r : CaptureRequest} {o : GenerationOp} {k : o.Reply → GenerationProg GenerationReturn}
    (hi : s.threads[i]? = some (.capture launchId r, some (.call o k))) :
    LookInv ⟨(generationExec manifestBytes capsuleBytes port w s.store o).2,
      s.threads.set i (.capture launchId r, (generationExec manifestBytes capsuleBytes port w s.store o).1.map k),
      ⟨i, .capture launchId r, w, s.store, (generationExec manifestBytes capsuleBytes port w s.store o).2⟩ :: s.log⟩ := by
  obtain ⟨looked, ⟨hallowed, hwp⟩, hlooked⟩ := h.looks i launchId r _ hi
  cases o with
  | capture id o =>
    obtain ⟨rfl, hlook⟩ := hallowed
    have hframe := (capturedExec_frame capsuleBytes w s.store id o).1
    have hcurrent := currentId_eq_of_current hframe
    refine ⟨fun j launchId' r' p hj => ?_, fun e he launchId' r' hcall hchange => ?_⟩
    · rw [show (generationExec manifestBytes capsuleBytes port w s.store (.capture id o)).2.currentId
        = s.store.currentId from hcurrent]
      by_cases hij : i = j
      · subst hij
        rw [List.getElem?_set_self (List.getElem?_eq_some_iff.mp hi).1] at hj
        obtain ⟨⟨rfl, rfl⟩, reply, hreply, rfl⟩ : (id = launchId' ∧ r = r') ∧
            ∃ reply, (generationExec manifestBytes capsuleBytes port w s.store (.capture id o)).1 = some reply ∧
              k reply = p := by simpa using hj
        refine ⟨_, hwp reply trivial, fun hnext => ?_⟩
        rcases lookNext_true hreply hnext with hthen | hnow
        · exact hlooked hthen
        · exact hnow
      · rw [List.getElem?_set_ne hij] at hj
        exact h.looks j launchId' r' p hj
    · rcases List.mem_cons.mp he with rfl | he
      · obtain ⟨rfl, -⟩ := GenerationCall.capture.inj hcall
        by_cases ho : ∃ f, o = .update f
        · obtain ⟨f, rfl⟩ := ho
          exact hlooked hlook
        · refine absurd ?_ hchange
          show (capturedExec capsuleBytes id w s.store o).2.capture id = s.store.capture id
          rw [capturedExec_store fun f hf => ho ⟨f, hf⟩]
      · exact h.stored e he launchId' r' hcall hchange
  | _ => exact hallowed.elim

theorem LookInv.launches {s : GenerationSystem} (h : LookInv s) {i : ℕ} {l : Launch} {o : GenerationOp}
    {k : o.Reply → GenerationProg GenerationReturn} (hi : s.threads[i]? = some (.launch l, some (.call o k)))
    (hchecks : (generationExec manifestBytes capsuleBytes port w s.store o).2.current ≠ s.store.current →
      ∀ (i : ℕ) launchId r p, s.threads[i]? = some (.capture launchId r, some p) →
        s.store.currentId = some launchId → ChecksFirst launchId p) :
    LookInv ⟨(generationExec manifestBytes capsuleBytes port w s.store o).2,
      s.threads.set i (.launch l, (generationExec manifestBytes capsuleBytes port w s.store o).1.map k),
      ⟨i, .launch l, w, s.store, (generationExec manifestBytes capsuleBytes port w s.store o).2⟩ :: s.log⟩ := by
  refine ⟨fun j launchId r p hj => ?_, fun e he launchId r hcall hchange => ?_⟩
  · have hj : s.threads[j]? = some (.capture launchId r, some p) := by
      by_cases hij : i = j
      · subst hij
        rw [List.getElem?_set_self (List.getElem?_eq_some_iff.mp hi).1] at hj
        cases (Prod.mk.inj (Option.some.inj hj)).1
      · rw [List.getElem?_set_ne hij] at hj
        exact hj
    obtain ⟨looked, hlooks, hlooked⟩ := h.looks j launchId r p hj
    by_cases hsame : (generationExec manifestBytes capsuleBytes port w s.store o).2.current = s.store.current
    · exact ⟨looked, hlooks, fun hyes => (currentId_eq_of_current hsame).trans (hlooked hyes)⟩
    · cases looked with
      | false => exact ⟨false, hlooks, nofun⟩
      | true => exact ⟨false, hchecks hsame j launchId r p hj (hlooked rfl), nofun⟩
  · rcases List.mem_cons.mp he with rfl | he
    · cases hcall
    · exact h.stored e he launchId r hcall hchange

theorem lookInv_run (actions : List (Action GenerationWorld GenerationCall))
    (h : Uninterrupted (generationMachine manifestBytes capsuleBytes port) actions) :
    LookInv ((generationMachine manifestBytes capsuleBytes port).run (System.init .empty) actions) := by
  induction actions using List.reverseRecOn with
  | nil => exact ⟨fun _ _ _ _ hi => (by cases hi), fun _ he => (by cases he)⟩
  | append_singleton rest a ih =>
    have hrun : (generationMachine manifestBytes capsuleBytes port).run (System.init .empty) (rest ++ [a])
        = (generationMachine manifestBytes capsuleBytes port).step
          ((generationMachine manifestBytes capsuleBytes port).run (System.init .empty) rest) a := by
      simp [Machine.run]
    have hrest := ih fun earlier b later hsplit => h earlier b (later ++ [a]) (by simp [hsplit])
    have hlast := h rest a [] rfl
    simp only at hlast
    rw [hrun]
    revert hlast
    generalize (generationMachine manifestBytes capsuleBytes port).run (System.init .empty) rest = s at hrest
    intro hlast
    rcases Machine.step_cases (m := generationMachine manifestBytes capsuleBytes port) (s := s) a with
      ⟨d, rfl, hs⟩ | ⟨i, w, d, o, k, rfl, hi, hs⟩ | ⟨-, hs⟩
    · rw [hs]
      refine ⟨fun j launchId r p hj => ?_, hrest.stored⟩
      rcases Nat.lt_or_ge j s.threads.length with hlt | hge
      · rw [List.getElem?_append_left hlt] at hj
        exact hrest.looks j launchId r p hj
      · rw [List.getElem?_append_right hge, List.getElem?_singleton] at hj
        split_ifs at hj
        obtain ⟨rfl, hp⟩ := Prod.mk.inj (Option.some.inj hj)
        obtain rfl := Option.some.inj hp
        exact ⟨false, generationBody_checksFirst launchId r, fun h => by cases h⟩
    · rw [hs] at hlast ⊢
      cases d with
      | launch l => exact hrest.launches hi hlast
      | capture launchId r => exact hrest.captures hi
    · rw [hs]
      exact hrest

end machine

/-- Captures against the replacement of their generation. For every interleaving of launchers and capture
calls on one port:

* a commit that replaces a generation finds no capsule in it that blocks it, unless the emulator and the
  bridge of the generation are seen to have ended;
* where no replacement falls between the look of a capture call at the generation and its update, a capture
  call updates only while `current.json` names its generation, and the capsules it has stored were stored
  then. -/
theorem captures_run (manifestBytes : CurrentManifest → Option ℕ) (capsuleBytes : CaptureCapsule → Option ℕ)
    (port : ℕ) (actions : List (Action GenerationWorld GenerationCall)) :
    let m := generationMachine manifestBytes capsuleBytes port
    let s := m.run (System.init .empty) actions
    (∀ e ∈ s.log, Replaces e → ∀ current, e.before.current = some current →
      ∀ c, e.before.capture current.launchId = some c →
        c.generationMutationBlocker = none ∨ e.oracle.Ended current) ∧
    (Uninterrupted m actions →
      (∀ (i : ℕ) launchId r id f k,
        s.threads[i]? = some (.capture launchId r, some (.call (.capture id (.update f)) k)) →
        s.store.currentId = some launchId) ∧
      (∀ e ∈ s.log, ∀ launchId r, e.call = .capture launchId r →
        e.after.capture launchId ≠ e.before.capture launchId → e.before.currentId = some launchId)) := by
  intro m s
  refine ⟨fun e he hr current hcurrent c hc => ?_, fun huninterrupted => ?_⟩
  · obtain ⟨o, ho⟩ := m.exec_of_mem_log (s := System.init .empty) (by simp [System.init]) actions e he
    have hchange : (generationExec manifestBytes capsuleBytes port e.oracle e.before o).2.current
        ≠ e.before.current := by
      rw [show (generationExec manifestBytes capsuleBytes port e.oracle e.before o).2 = e.after from ho.symm]
      exact hr
    obtain ⟨prepared, manifest, -, hcheck⟩ := commit_of_replaces hchange
    obtain ⟨-, hexpected, hblocker⟩ := PreparedGeneration.commitCheck_eq_ok hcheck
    have hprevious : prepared.expectedCurrentLaunchId = some current.launchId := by
      rw [← hexpected]
      simp [PortStore.currentId, hcurrent]
    rcases generationCaptureBlocker_eq_none (hblocker _ hprevious) hc with hnone | ⟨m', hm', -, hended⟩
    · exact .inl hnone
    · obtain rfl := Option.some.inj (hm'.symm.trans hcurrent)
      exact .inr hended
  · have h : LookInv s := lookInv_run actions huninterrupted
    exact ⟨fun _ _ _ _ _ _ hi => h.updates hi, h.stored⟩

/-! ## Runs that overtake a capture -/

/-- Surroundings in which the processes of a generation have ended. -/
def endedGenerations : GenerationWorld :=
  { calmGenerations with capture := { calmWorld with processState := fun _ => .exited } }

def samplePreparation : CapturePreparation where
  captureId := "capture-a"
  requestDigestSha256 := String.ofList (List.replicate 64 'a')
  capabilityRevision := String.ofList (List.replicate 64 'b')
  outputRoot := FsPath.new "/out"
  destinationPath := FsPath.new "/out/capture-a"
  stagingPath := FsPath.new "/out/.capture-a.staging-1"
  lease := ⟨none, ⟨41, some "boot:7"⟩⟩

/-- The first launcher publishes its generation, and a capture call in it does its first `n` operations. -/
def captureBegins (n : ℕ) : List (Action GenerationWorld GenerationCall) :=
  .spawn (.launch launchA) :: List.replicate 5 (.step 0 calmGenerations) ++
    .spawn (.capture launchA.launchId (.create samplePreparation)) :: List.replicate n (.step 1 calmGenerations)

/-- A second launcher prepares and tries to publish its generation. -/
def replacement (w : GenerationWorld) : List (Action GenerationWorld GenerationCall) :=
  .spawn (.launch launchB) :: List.replicate 5 (.step 2 w)

/-- The capsule is stored, and the generation replaced after its processes have ended. -/
def endedRun : List (Action GenerationWorld GenerationCall) := captureBegins 12 ++ replacement endedGenerations

def raceRun : List (Action GenerationWorld GenerationCall) :=
  captureBegins 11 ++ replacement calmGenerations ++ [.step 1 calmGenerations]

abbrev sampleGenerations : Machine GenerationOp GenerationOp.Reply GenerationReturn PortStore GenerationWorld
    GenerationCall :=
  generationMachine (fun _ => some 1000) (fun _ => some 1000) 8765

/-- The capsule of the first launcher's generation blocks it. -/
def blocksA (s : PortStore) : Bool :=
  (s.capture launchA.launchId).any fun c => c.generationMutationBlocker.isSome

/-- A commit can succeed over a capsule that blocks the generation, when the processes of the generation have
ended; and a capture call can store its capsule in a generation that has been replaced. -/
theorem captures_run_overtaken :
    (let s := sampleGenerations.run (System.init .empty) endedRun
      ∃ e ∈ s.log, Replaces e ∧ e.before.currentId = some launchA.launchId ∧ blocksA e.before = true) ∧
    (let s := sampleGenerations.run (System.init .empty) raceRun
      ∃ e ∈ s.log, e.thread = 1 ∧ e.before.currentId = some launchB.launchId ∧
        blocksA e.before = false ∧ blocksA e.after = true) := by
  constructor
  · have hany : ((sampleGenerations.run (System.init .empty) endedRun).log.any fun e =>
        decide (Replaces e) && decide (e.before.currentId = some launchA.launchId) && blocksA e.before) = true := by
      decide +kernel
    obtain ⟨e, he, h⟩ := List.any_eq_true.mp hany
    simp only [Bool.and_eq_true, decide_eq_true_eq] at h
    exact ⟨e, he, h.1.1, h.1.2, h.2⟩
  · have hany : ((sampleGenerations.run (System.init .empty) raceRun).log.any fun e =>
        decide (e.thread = 1) && decide (e.before.currentId = some launchB.launchId) && !blocksA e.before &&
          blocksA e.after) = true := by
      decide +kernel
    obtain ⟨e, he, h⟩ := List.any_eq_true.mp hany
    simp only [Bool.and_eq_true, decide_eq_true_eq, Bool.not_eq_true'] at h
    exact ⟨e, he, h.1.1.1, h.1.1.2, h.1.2, h.2⟩

theorem uninterrupted_of_first {m : Machine GenerationOp GenerationOp.Reply GenerationReturn PortStore
      GenerationWorld GenerationCall} {actions : List (Action GenerationWorld GenerationCall)}
    (h : ∀ e ∈ (m.run (System.init .empty) actions).log, Replaces e → e.before.currentId = none) :
    Uninterrupted m actions := by
  intro earlier a later hsplit
  simp only
  intro hchange j launchId r p _ hcurrent
  have hrun : m.run (System.init .empty) actions
      = m.run (m.step (m.run (System.init .empty) earlier) a) later := by
    simp [hsplit, Machine.run]
  rcases Machine.step_cases (m := m) (s := m.run (System.init .empty) earlier) a with
    ⟨d, rfl, hs⟩ | ⟨i, w, d, o, k, rfl, hi, hs⟩ | ⟨-, hs⟩
  · rw [hs] at hchange
    exact absurd rfl hchange
  · have hsuffix := m.log_suffix (m.step (m.run (System.init .empty) earlier) (.step i w)) later
    rw [← hrun, hs] at hsuffix
    have hnone := h _ (hsuffix.subset List.mem_cons_self) (by rw [hs] at hchange; exact hchange)
    rw [hcurrent] at hnone
    cases hnone
  · rw [hs] at hchange
    exact absurd rfl hchange

/-- The capsule is stored, and the second launcher is refused. -/
theorem captures_run_refused :
    let s := sampleGenerations.run (System.init .empty) (captureBegins 12 ++ replacement calmGenerations)
    s.store.currentId = some launchA.launchId ∧ blocksA s.store = true ∧
      ∀ e ∈ s.log, ∀ launchId r, e.call = .capture launchId r →
        e.after.capture launchId ≠ e.before.capture launchId → e.before.currentId = some launchId := by
  refine ⟨by decide +kernel, by decide +kernel, ((captures_run _ _ 8765 _).2 ?_).2⟩
  refine uninterrupted_of_first fun e he hr => ?_
  have hall : ((sampleGenerations.run (System.init .empty)
      (captureBegins 12 ++ replacement calmGenerations)).log.all fun e =>
        !decide (Replaces e) || decide (e.before.currentId = none)) = true := by
    decide +kernel
  have hfirst := List.all_eq_true.mp hall e he
  simpa [hr] using hfirst

end Emucap.Live
