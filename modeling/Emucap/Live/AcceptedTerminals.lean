import Mathlib.Data.List.Dedup
import Emucap.Live.InferredEvidence

/-!
# Accepted terminal responses

For an admitted request, an accepted terminal response passes the checks that `validate_recording_file` makes before
it opens the stream (`structuralChecks`), but for an event-aligned start and limits too narrow for the frames.
-/

namespace Emucap.Live

open Emucap.Bundle Emucap.Lib

/-! ## The checks before the stream -/

/-- What `validate_recording_file` checks before it opens the event stream. -/
def structuralChecks (registry : EventContractRegistry) (input : RecordingValidationInput) : RecordingCheck Unit := do
  let _ ← input.checkScope
  RecordingValidationInput.checkIdentities registry input.request.eventClasses
  input.checkObservationStart

theorem validateRecordingFile_of_structural {decode : List UInt8 → Except String EventEnvelope}
    {sha256 : List UInt8 → String} {file : EventFile} {registry : EventContractRegistry}
    {input : RecordingValidationInput} {e : RecordingValidationError}
    (h : structuralChecks registry input = .error e) :
    validateRecordingFile decode sha256 file registry input = .error e := by
  unfold structuralChecks at h
  unfold validateRecordingFile
  cases hscope : input.checkScope with
  | error e' =>
    rw [hscope] at h
    cases h
    rfl
  | ok maximumEnd =>
    rw [hscope] at h
    rw [ok_bind]
    have h : (RecordingValidationInput.checkIdentities registry input.request.eventClasses >>= fun _ =>
        input.checkObservationStart) = .error e := h
    cases hidentities : RecordingValidationInput.checkIdentities registry input.request.eventClasses with
    | error e' =>
      rw [hidentities] at h
      cases h
      rfl
    | ok u =>
      rw [hidentities] at h
      have hstart : input.checkObservationStart = .error e := h
      rw [ok_bind, hstart]
      rfl

/-- The observation starts where it was requested to: at an event of the requested class under its contract, or
without one. -/
def StartAgrees (request : RecordingRequest) (fStart : ℕ) : Option ObservationStartFacts → Prop
  | none => request.startOn = none
  | some observed => ∃ requested, request.startOn = some requested ∧ observed.eventClass = requested.eventClass ∧
      observed.frame = fStart ∧ ⟨observed.eventClass, observed.contractSha256⟩ ∈ request.eventClasses

/-- A response reports the event-aligned start that was requested, with the origin of the recording, and none
where none was requested. -/
structure ReportsStart (request : RecordingRequest) (terminal : WireTerminal) : Prop where
  origin : request.startOn.isSome → terminal.fOrigin.isSome
  agrees : StartAgrees request terminal.fStart terminal.observationStart

theorem checkObservationStart_eq_ok {input : RecordingValidationInput}
    (hsnapshots : input.request.startOn = none → input.request.initialSnapshots = []) :
    input.checkObservationStart = .ok () ↔ StartAgrees input.request input.fStart input.observationStart := by
  unfold RecordingValidationInput.checkObservationStart StartAgrees
  cases hon : input.request.startOn with
  | none =>
    cases input.observationStart with
    | none => simp [hsnapshots hon]
    | some observed => simp
  | some requested =>
    cases input.observationStart with
    | none => simp
    | some observed =>
      simp only [require_eq_ok, Option.some.injEq, exists_eq_left']
      rw [eq_comm, @eq_comm _ input.fStart]

/-! ## What was admitted -/

section admission

variable {cap : RecordingCapability} {digests : CapabilityDigests} {registry : EventContractRegistry}
  {request : RecordWindowRequest} {methods : List String} {regions : List MemoryRegion}
  {acquireMovie : FsPath → ℕ → RecordingInputMovieCapability → Except RecordingInputError AcquiredRecordingMovie}
  {state : Option AcquiredRecordingState} {effective : EffectiveRequest}

theorem classAccounting_of_warmup (h : cap.validate digests registry = .ok ()) (hwarmup : cap.warmup.isSome) :
    cap.classAccounting = true := by
  unfold RecordingCapability.validate at h
  obtain ⟨⟨⟩, -, h⟩ := bind_eq_ok.mp h
  obtain ⟨⟨⟩, -, h⟩ := bind_eq_ok.mp h
  obtain ⟨-, h⟩ := require_bind_eq_ok.mp h
  obtain ⟨-, h⟩ := require_bind_eq_ok.mp h
  obtain ⟨-, h⟩ := require_bind_eq_ok.mp h
  obtain ⟨⟨⟩, -, h⟩ := bind_eq_ok.mp h
  obtain ⟨-, h⟩ := require_bind_eq_ok.mp h
  obtain ⟨⟨⟩, -, h⟩ := bind_eq_ok.mp h
  obtain ⟨-, h⟩ := require_bind_eq_ok.mp h
  obtain ⟨⟨⟩, -, h⟩ := bind_eq_ok.mp h
  obtain ⟨-, h⟩ := require_bind_eq_ok.mp h
  obtain ⟨⟨⟩, -, h⟩ := bind_eq_ok.mp h
  obtain ⟨⟨⟩, -, h⟩ := bind_eq_ok.mp h
  obtain ⟨⟨⟩, -, h⟩ := bind_eq_ok.mp h
  obtain ⟨⟨⟩, -, h⟩ := bind_eq_ok.mp h
  obtain ⟨⟨⟩, hchecked, -⟩ := bind_eq_ok.mp h
  obtain ⟨warmup, hwarmup⟩ := Option.isSome_iff_exists.mp hwarmup
  rw [hwarmup] at hchecked
  exact (require_eq_ok.mp hchecked).2.2.2.2.2.2.2

/-- The start request and the snapshots pass on unchanged; a staged request needs an advertised warmup. -/
structure StartAdmitted (cap : RecordingCapability) (request : RecordWindowRequest) (result : RecordingRequest) :
    Prop where
  snapshots : result.startOn = none → result.initialSnapshots = []
  warmup : result.staged = true → cap.warmup.isSome

theorem effectiveRequest_start
    (h : effectiveRequest cap request acquireMovie methods regions state = .ok effective) :
    StartAdmitted cap request effective.request := by
  unfold effectiveRequest at h
  obtain ⟨total, htotal, h⟩ := orError_bind_eq_ok.mp h
  obtain ⟨⟨hframes, hmax⟩, h⟩ := require_bind_eq_ok.mp h
  obtain ⟨-, h⟩ := require_bind_eq_ok.mp h
  obtain ⟨⟨⟩, -, h⟩ := bind_eq_ok.mp h
  obtain ⟨⟨⟩, -, h⟩ := bind_eq_ok.mp h
  obtain ⟨acquired, -, h⟩ := bind_eq_ok.mp h
  obtain ⟨eventClasses, -, h⟩ := bind_eq_ok.mp h
  obtain ⟨eventFilters, -, h⟩ := bind_eq_ok.mp h
  obtain ⟨⟨⟩, hstart, h⟩ := bind_eq_ok.mp h
  obtain ⟨⟨⟩, -, h⟩ := bind_eq_ok.mp h
  obtain ⟨eventArming, harming, h⟩ := bind_eq_ok.mp h
  obtain ⟨⟨⟩, -, h⟩ := bind_eq_ok.mp h
  obtain ⟨terminalState, -, h⟩ := bind_eq_ok.mp h
  obtain ⟨-, h⟩ := require_bind_eq_ok.mp h
  obtain ⟨⟨⟩, -, h⟩ := bind_eq_ok.mp h
  obtain ⟨limits, -, h⟩ := bind_eq_ok.mp h
  obtain ⟨movie, -, h⟩ := bind_eq_ok.mp h
  obtain rfl := Except.ok.inj h
  constructor
  · intro hnone
    have hnone : request.startOn = none := hnone
    unfold validateStartRequest at hstart
    rw [hnone] at hstart
    exact require_eq_ok.mp hstart
  · intro hstaged
    unfold resolveEventArming at harming
    split_ifs at harming with hplain
    · obtain ⟨hwarmup, hnone⟩ := hplain
      simp [RecordingRequest.staged, hwarmup, hnone] at hstaged
    · obtain ⟨-, harming⟩ := require_bind_eq_ok.mp harming
      obtain ⟨warmup, hwarmup, -⟩ := orError_bind_eq_ok.mp harming
      rw [hwarmup]
      rfl

theorem armingCovers_of_names {result : RecordingRequest}
    (hnames : result.eventArming.map EventClassArming.id = result.requestedIds) (hnodup : result.requestedIds.Nodup) :
    result.armingCovers = true := by
  have hlength : result.eventArming.length = result.requestedIds.length := by
    rw [← hnames, List.length_map]
  unfold RecordingRequest.armingCovers
  rw [hnames, List.dedup_eq_self.mpr hnodup, hlength, beq_self_eq_true, Bool.true_and, Bool.true_and, List.all_eq_true]
  intro id hid
  rw [← hnames, List.mem_map] at hid
  obtain ⟨arming, harming, rfl⟩ := hid
  unfold RecordingRequest.armingScope
  rw [Option.isSome_map, List.find?_isSome]
  exact ⟨arming, List.mem_reverse.mpr harming, beq_self_eq_true _⟩

theorem terminalValidation_eq_ok {captureId : String} {result : RecordingRequest} {classAccounting : Bool}
    {terminal : WireTerminal} {origin : RecordingOrigin} {input : RecordingValidationInput}
    (h : terminalValidation captureId result classAccounting terminal origin = .ok input) :
    input.request = result ∧ input.fStart = terminal.fStart ∧ input.fEnd = terminal.fEnd ∧
      input.observationStart = terminal.observationStart ∧ input.terminal.fOrigin = terminal.fOrigin ∧
      input.terminal.eventClasses = terminal.eventClasses ∧ terminal.fStart < 2 ^ 64 ∧
      terminal.fStart + result.frames < 2 ^ 64 ∧
      TerminalMatches captureId result classAccounting terminal
        (terminal.fOrigin.getD terminal.fStart + result.warmupFrames) (terminal.fStart + result.frames) := by
  unfold terminalValidation at h
  obtain ⟨expected, hexpected, h⟩ := orError_bind_eq_ok.mp h
  obtain ⟨maximum, hmaximum, h⟩ := orError_bind_eq_ok.mp h
  obtain ⟨hmatches, h⟩ := require_bind_eq_ok.mp h
  obtain rfl := Except.ok.inj h
  obtain ⟨hstart, rfl⟩ := checkedAdd_eq_some.mp hexpected
  obtain ⟨hend, rfl⟩ := checkedAdd_eq_some.mp hmaximum
  exact ⟨rfl, rfl, rfl, rfl, rfl, rfl, hmatches.fStart ▸ hstart, hend, hmatches⟩

theorem scopeMatchesOutcome_le {result : RecordingRequest} {terminal : WireTerminal} {maximumFEnd : ℕ}
    (h : scopeMatchesOutcome result terminal maximumFEnd = true) : terminal.fEnd ≤ maximumFEnd := by
  unfold scopeMatchesOutcome at h
  split at h
  · exact le_of_eq (beq_iff_eq.mp h)
  · simp only [Bool.and_eq_true, decide_eq_true_eq] at h
    exact h.1.2
  · exact of_decide_eq_true h

theorem structuralChecks_eq_ok {input : RecordingValidationInput} {u : Unit} :
    structuralChecks registry input = .ok u ↔ ScopeChecked input ∧
      RecordingValidationInput.checkIdentities registry input.request.eventClasses = .ok () ∧
      input.checkObservationStart = .ok () := by
  unfold structuralChecks
  rw [bind_eq_ok]
  constructor
  · rintro ⟨maximumEnd, hscope, h⟩
    obtain ⟨⟨⟩, hidentities, hstart⟩ := bind_eq_ok.mp h
    exact ⟨(checkScope_iff.mp hscope).1, hidentities, hstart⟩
  · rintro ⟨hscope, hidentities, hstart⟩
    exact ⟨_, checkScope_iff.mpr ⟨hscope, rfl⟩, bind_eq_ok.mpr ⟨(), hidentities, hstart⟩⟩

/-- The response passes the checks on the scope, once the limits do. -/
theorem scopeChecked_of_accepted {result : RecordingRequest} {captureId : String} {terminal : WireTerminal}
    {origin : RecordingOrigin} {input : RecordingValidationInput} (hchecks : RequestChecks registry result)
    (harming : resolveEventArming cap request result.eventClasses = .ok result.eventArming)
    (hwarmup : result.warmupFrames = request.warmupFrames) (hstartOn : result.startOn = request.startOn)
    (hclasses : result.staged = true → cap.classAccounting = true)
    (hreports : result.startOn.isSome → terminal.fOrigin.isSome)
    (h : terminalValidation captureId result cap.classAccounting terminal origin = .ok input) : ScopeChecked input := by
  obtain ⟨hrequest, hfStart, hfEnd, -, hfOrigin, heventClasses, hstart, hend, hmatches⟩ := terminalValidation_eq_ok h
  have hlimits := validateRecordingLimits_eq_ok.mp hchecks.limits
  have hframes := hchecks.frames
  have hmaxFrames := hlimits.frames
  have horigin : input.fOrigin = terminal.fOrigin.getD terminal.fStart := by
    rw [RecordingValidationInput.fOrigin, hfOrigin, hfStart]
  constructor
  case limits => exact hrequest ▸ hlimits
  case total =>
    rw [hrequest]
    exact lt_of_le_of_lt hframes.2 (lt_of_le_of_lt hmaxFrames (by decide))
  case frames =>
    rw [hrequest]
    omega
  case maxFrames => exact hrequest ▸ hframes.2
  case maximumEnd =>
    rw [hrequest, hfStart]
    exact hend
  case nodup => exact hrequest ▸ hchecks.unique
  case origin =>
    rw [horigin, hrequest, hfStart]
    exact hmatches.fStart.symm
  case start => exact hfStart ▸ hstart
  case originEnd =>
    rw [horigin, hfEnd]
    exact hmatches.fEnd
  case plain =>
    rw [hrequest, hfOrigin, hfStart]
    intro hplain
    obtain ⟨hnone, hstartNone⟩ := staged_eq_false hplain
    exact ⟨hchecks.armingEmpty.mpr ⟨hnone, hstartNone⟩, hmatches.noWarmup hnone⟩
  case stage =>
    rw [hrequest, hfOrigin, heventClasses]
    intro hstaged
    refine ⟨?_, hmatches.classes (hclasses hstaged), ?_⟩
    · by_cases hpos : 0 < result.warmupFrames
      · exact hmatches.warmup hpos
      · exact hreports (by simpa [RecordingRequest.staged, hpos] using hstaged)
    · obtain ⟨hnone, hstartNone, -⟩ | ⟨-, hids⟩ := resolveEventArming_eq_ok harming
      · simp [RecordingRequest.staged, hwarmup, hstartOn, hnone, hstartNone] at hstaged
      · exact armingCovers_of_names hids hchecks.unique
  case fEnd =>
    rw [hfEnd, hfStart, hrequest]
    exact scopeMatchesOutcome_le hmatches.scope

/-- An accepted terminal response has the shape that the validation of the recording asks for exactly if the
admitted limits cover the frames of the request, and the response reports the event-aligned start that was
requested, and none where none was. For every valid capability, every request that was admitted and every response
that was accepted. -/
theorem accepted_terminal_checks_iff {captureId : String} {terminal : WireTerminal} {input : RecordingValidationInput}
    (hcap : cap.validate digests registry = .ok ())
    (h : effectiveRequest cap request acquireMovie methods regions state = .ok effective)
    (hterminal : terminalValidation captureId effective.request cap.classAccounting terminal effective.origin
      = .ok input) :
    structuralChecks registry input = .ok () ↔
      (∀ maxEvents, request.requested.maxEvents = some maxEvents →
        request.warmupFrames + request.frames ≤ maxEvents) ∧ ReportsStart effective.request terminal := by
  have hvalidated := RecordingCapability.validate_eq_ok hcap
  have hadmission := effectiveRequest_eq_ok h
  have hstart := effectiveRequest_start h
  have hpos : request.warmupFrames + request.frames ≠ 0 := by
    have hframes := hadmission.frames
    omega
  have hlimits := hadmission.narrowed.limitsValid_iff hvalidated.limits hpos hadmission.total
  obtain ⟨hrequest, hfStart, -, hobservation, hfOrigin, -⟩ := terminalValidation_eq_ok hterminal
  have hobserved : input.checkObservationStart = .ok () ↔
      StartAgrees effective.request terminal.fStart terminal.observationStart := by
    rw [checkObservationStart_eq_ok (hrequest ▸ hstart.snapshots), hrequest, hobservation, hfStart]
  rw [structuralChecks_eq_ok, ← hlimits, hobserved]
  constructor
  · rintro ⟨hscope, -, hagrees⟩
    refine ⟨hrequest ▸ hscope.limits, fun hon => ?_, hagrees⟩
    have hstaged : input.request.staged = true := by simp [RecordingRequest.staged, hrequest, hon]
    exact hfOrigin ▸ (hscope.stage hstaged).1
  · rintro ⟨hvalid, hreports⟩
    have hchecks := hadmission.checks hvalidated hvalid
    exact ⟨scopeChecked_of_accepted hchecks hadmission.arming hadmission.warmup hadmission.startOn
      (fun hstaged => classAccounting_of_warmup hcap (hstart.warmup hstaged)) hreports.origin hterminal,
      hrequest ▸ hchecks.identities, hreports.agrees⟩

end admission

/-! ## A start that was not requested -/

/-- The response of the admitted sample, whose scope is one warmup frame and one observed frame. -/
def warmupTerminal (observationStart : Option ObservationStartFacts) : WireTerminal where
  status := "completed"
  captureId := "capture-a"
  operationOutcome := .completed
  executionOutcome := .targetReached
  integrity := .complete
  reason := none
  fOrigin := some 6
  fStart := 7
  fEnd := 8
  finalFrame := 8
  frames := 1
  events := 1
  bytes := 100
  physicalBytes := 100
  dropped := 0
  truncated := false
  firstSequenceGap := none
  wallMs := 40
  finalExecutionState := .frozen
  cleanup := ⟨.released, .notAcquired, .released⟩
  stopEvent := none
  eventClasses := [⟨"frame_boundary", true, some ⟨7, 8⟩, 1, 0⟩]
  observationStart := observationStart

/-- An observation start that was not requested: the response is accepted, and no event file is valid with it. -/
theorem accepted_terminal_refused :
    ∃ start input, warmupCapability.validate warmupDigests frameBoundaryRegistry = .ok () ∧
      effectiveRequest warmupCapability (observedBoundary (some 2)) noMovie [] [] none =
        .ok (observedBoundaryRequest 2) ∧
      terminalValidation "capture-a" (observedBoundaryRequest 2).request warmupCapability.classAccounting
        (warmupTerminal (some start)) (observedBoundaryRequest 2).origin = .ok input ∧
      ∀ decode sha256 file, validateRecordingFile decode sha256 file frameBoundaryRegistry input =
        .error .observationStartFacts := by
  refine ⟨⟨0, "frame_boundary", frameBoundaryContract.contractSha256, 7, "master", 0⟩, _, warmupCapability_valid,
    by decide +kernel, rfl, fun decode sha256 file => ?_⟩
  exact validateRecordingFile_of_structural (by decide +kernel)

theorem accepted_terminal_checks_plain :
    ∃ input, terminalValidation "capture-a" (observedBoundaryRequest 2).request warmupCapability.classAccounting
        (warmupTerminal none) (observedBoundaryRequest 2).origin = .ok input ∧
      structuralChecks frameBoundaryRegistry input = .ok () := by
  have h : effectiveRequest warmupCapability (observedBoundary (some 2)) noMovie [] [] none =
      .ok (observedBoundaryRequest 2) := by decide +kernel
  have hterminal : terminalValidation "capture-a" (observedBoundaryRequest 2).request
      warmupCapability.classAccounting (warmupTerminal none) (observedBoundaryRequest 2).origin = .ok _ := rfl
  refine ⟨_, hterminal,
    (accepted_terminal_checks_iff warmupCapability_valid h hterminal).mpr ⟨fun maxEvents hmax => ?_, ?_⟩⟩
  · obtain rfl := Option.some.inj hmax
    exact le_refl 2
  · exact ⟨fun hon => absurd hon (by decide), rfl⟩

end Emucap.Live
