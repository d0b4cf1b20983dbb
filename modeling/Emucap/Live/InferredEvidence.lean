import Emucap.Bundle.StreamTransfer
import Emucap.Live.RecordingAdmission
import Emucap.Live.RecordingSink

/-!
# The evidence of a failed recording

After a wire failure the terminal report is inferred from what the sink received. The evidence is validated just where
the request has no warmup and no aligned start and the frames can be counted from the first event on.
-/

namespace Emucap.Live

open Emucap.Bundle Emucap.Lib

/-! ## The scope of an input -/

section scope
variable {input : RecordingValidationInput}

structure ScopeChecked (input : RecordingValidationInput) : Prop where
  limits : LimitsValid input.request.limits
  total : input.request.warmupFrames + input.request.frames < 2 ^ 64
  frames : input.request.frames ≠ 0
  maxFrames : input.request.warmupFrames + input.request.frames ≤ input.request.limits.maxFrames
  maximumEnd : input.fStart + input.request.frames < 2 ^ 64
  nodup : input.request.requestedIds.Nodup
  origin : input.fOrigin + input.request.warmupFrames = input.fStart
  start : input.fStart < 2 ^ 64
  originEnd : input.fOrigin ≤ input.fEnd
  plain : input.request.staged = false → input.request.eventArming = [] ∧
    ∀ origin ∈ input.terminal.fOrigin, origin = input.fStart
  stage : input.request.staged = true → input.terminal.fOrigin.isSome ∧ input.terminal.eventClasses ≠ [] ∧
    input.request.armingCovers
  fEnd : input.fEnd ≤ input.fStart + input.request.frames

theorem checkScope_iff {maximumEnd : ℕ} :
    input.checkScope = .ok maximumEnd ↔ ScopeChecked input ∧ maximumEnd = input.fStart + input.request.frames := by
  simp only [RecordingValidationInput.checkScope, bind_eq_ok, require_eq_ok, exists_const, orError_eq_ok,
    mapError_eq_ok, checkedAdd_eq_some]
  constructor
  · rintro ⟨_, hlimits, total, ⟨htotal, rfl⟩, ⟨hframes, hmax⟩, start, ⟨hstart, rfl⟩, last, ⟨hlast, rfl⟩,
      ⟨hnodup, horigin, horiginEnd, hplain, hstage⟩, hend, h⟩
    exact ⟨⟨validateRecordingLimits_eq_ok.mp hlimits, htotal, hframes, hmax, hlast, hnodup, horigin, horigin ▸ hstart,
      horiginEnd, hplain, hstage, hend⟩, (Except.ok.inj h).symm⟩
  · rintro ⟨h, rfl⟩
    exact ⟨(), validateRecordingLimits_eq_ok.mpr h.limits, _, ⟨h.total, rfl⟩, ⟨h.frames, h.maxFrames⟩, _,
      ⟨h.origin ▸ h.start, rfl⟩, _, ⟨h.maximumEnd, rfl⟩, ⟨h.nodup, h.origin, h.originEnd, h.plain, h.stage⟩,
      h.fEnd, rfl⟩

theorem LimitsValid.fit {limits : RecordingLimits} (h : LimitsValid limits) : LimitsFit limits where
  line := h.line.trans_lt (by decide)
  bytes := h.bytes.trans_lt (by decide)
  events := h.events.trans_lt (by decide)

theorem ScopeChecked.plainRules {registry : EventContractRegistry} {rules : StreamRules}
    (h : ScopeChecked input) (hplain : input.request.staged = false)
    (hrules : streamRules registry input.spec none [] = .ok rules) :
    PlainRules rules input.fStart input.fEnd := by
  obtain ⟨hspec, hanchor, -⟩ := streamRules_spec hrules
  obtain ⟨harming, horigin⟩ := h.plain hplain
  have hfOrigin : input.fOrigin = input.fStart := by
    unfold RecordingValidationInput.fOrigin
    cases hsome : input.terminal.fOrigin with
    | none => rfl
    | some origin => exact horigin origin hsome
  have hend : max input.fEnd input.fStart = input.fEnd := by
    have hle := h.originEnd
    omega
  refine ⟨fun eventClass => ?_, hanchor, by rw [hspec]; rfl⟩
  have hinterval : ∀ id, input.classInterval id = ⟨input.fStart, input.fEnd⟩ := by
    intro id
    have hscope : input.request.armingScope id = none := by
      simp [RecordingRequest.armingScope, harming]
    simp only [RecordingValidationInput.classInterval, hscope, hend]
  unfold StreamRules.interval
  rw [hspec]
  show (OrdMap.find? eventClass input.classIntervals).getD ⟨input.fOrigin, input.fEnd⟩ = _
  unfold RecordingValidationInput.classIntervals
  rw [RecordingValidationInput.find?_foldl_insert, hfOrigin]
  split_ifs with hmem
  · exact hinterval eventClass
  · rfl

end scope

/-! ## Reports without facts -/

/-- An input that was inferred from a first frame, and marked by the sink. -/
structure Inferred (request : RecordingRequest) (first : ℕ) (input : RecordingValidationInput) : Prop where
  request_eq : input.request = request
  fStart : input.fStart = first + request.warmupFrames
  fEnd : input.fEnd = first + request.warmupFrames + request.frames
  observationStart : input.observationStart = none
  fOrigin : input.terminal.fOrigin = if 0 < request.warmupFrames then some first else none
  stopEvent : input.terminal.stopEvent = none
  eventClasses : input.terminal.eventClasses = []
  claimed : input.terminal.claimedIntegrity = .unverifiable
  operation : input.terminal.operationOutcome ≠ .completed

theorem applySinkOutcome_facts (report : ProducerTerminalReport) (outcome : SinkOutcome) :
    (applySinkOutcome report outcome).fOrigin = report.fOrigin ∧
      (applySinkOutcome report outcome).stopEvent = report.stopEvent ∧
      (applySinkOutcome report outcome).eventClasses = report.eventClasses ∧
      (report.claimedIntegrity = .unverifiable →
        (applySinkOutcome report outcome).claimedIntegrity = .unverifiable) ∧
      (report.operationOutcome ≠ .completed ∨ outcome.truncated = true ∨ outcome.error.isSome = true →
        (applySinkOutcome report outcome).operationOutcome ≠ .completed) := by
  unfold applySinkOutcome
  cases outcome.error with
  | some error => simp [failSink, failHost, apply_ite]
  | none =>
    by_cases htruncated : outcome.truncated = true <;> simp [failHost, htruncated]

theorem inferredValidation_eq_ok {display : LinkError → String} {origin : RecordingOrigin}
    {request : RecordingRequest} {outcome : SinkOutcome} {link : LinkSnapshot} {error : LinkError}
    {input : RecordingValidationInput}
    (h : inferredValidation display origin request outcome link error = .ok input) :
    Inferred request (outcome.firstFrame.getD 0)
      { input with terminal := applySinkOutcome input.terminal outcome } := by
  unfold inferredValidation at h
  simp only [bind_eq_ok, orError_eq_ok, checkedAdd_eq_some] at h
  obtain ⟨fStart, ⟨-, rfl⟩, fEnd, ⟨-, rfl⟩, h⟩ := h
  obtain rfl := Except.ok.inj h
  obtain ⟨hfOrigin, hstop, hclasses, hclaimed, hoperation⟩ := applySinkOutcome_facts _ outcome
  refine ⟨rfl, rfl, rfl, rfl, hfOrigin, hstop, hclasses, hclaimed rfl, hoperation (.inl ?_)⟩
  split_ifs <;> simp

/-! ## Valid streams -/

section valid
variable (decode : List UInt8 → Except String EventEnvelope) (sha256 : List UInt8 → String)
  (registry : EventContractRegistry) (request : RecordingRequest)

/-- The lines of a stream that is accepted for the request, with some scope and start. -/
def ValidStream (stream : List (List UInt8)) : Prop :=
  ∃ (input : RecordingValidationInput) (file : EventFile) (report : EventStreamReport) (maximumEnd : ℕ),
    input.request = request ∧ file.bytes = stream.flatten ∧ (∀ line ∈ stream, WholeLine line) ∧
    input.checkScope = .ok maximumEnd ∧ input.checkObservationStart = .ok () ∧
    validateEventStreamAtStart decode sha256 file registry input.spec input.observationStart
      input.observationClasses = .ok report

def lineEvents (lines : List (List UInt8)) : List EventEnvelope :=
  lines.filterMap fun line => (decode line).toOption

/-- The evidence of a failed recording of the request can be validated. -/
structure EvidenceFits (request : RecordingRequest) (events : List EventEnvelope) : Prop where
  plain : request.staged = false
  stopAhead : StopAhead request.stopOn events
  fits : ∀ first ∈ events.head?, first.frame + request.frames < 2 ^ 64
  first : ∀ first ∈ events.head?, ∀ event ∈ events, first.frame ≤ event.frame

variable {decode sha256 registry request} {stream lines : List (List UInt8)} {events : List EventEnvelope}

theorem lineEvents_eq (h : lines.map decode = events.map Except.ok) : lineEvents decode lines = events := by
  induction lines generalizing events with
  | nil =>
    cases events with
    | nil => rfl
    | cons event events => cases h
  | cons line lines ih =>
    cases events with
    | nil => cases h
    | cons event events =>
      rw [List.map_cons, List.map_cons, List.cons.injEq] at h
      rw [lineEvents, List.filterMap_cons, h.1]
      exact congrArg (event :: ·) (ih h.2)

theorem ValidStream.accepted (h : ValidStream decode sha256 registry request stream) :
    ∃ input file rules st, input.request = request ∧ ScopeChecked input ∧ input.checkObservationStart = .ok () ∧
      AcceptedFile decode registry input.spec input.observationStart input.observationClasses file rules stream []
        st := by
  obtain ⟨input, file, report, maximumEnd, hrequest, hbytes, hwhole, hscope, hstart, hvalid⟩ := h
  obtain ⟨rules, lines, rest, st, haccepted⟩ := exists_acceptedFile hvalid
  have hsame : lines.flatten ++ rest = stream.flatten ++ [] := by
    rw [← haccepted.bytes, hbytes, List.append_nil]
  obtain ⟨rfl, rfl⟩ := lines_unique (fun line hmem => (haccepted.fit.whole line hmem).1) haccepted.fit.rest.1 hwhole
    List.not_mem_nil hsame
  exact ⟨input, file, rules, st, hrequest, ((checkScope_iff).mp hscope).1, hstart, haccepted⟩

theorem ValidStream.writable (h : ValidStream decode sha256 registry request stream) :
    ∃ events, Writable decode request.limits stream events := by
  obtain ⟨input, file, rules, st, rfl, hscope, -, haccepted⟩ := h.accepted
  obtain ⟨events, hdecoded⟩ := acceptAll_decoded haccepted.accepted
  obtain ⟨hspec, -, -⟩ := streamRules_spec haccepted.ruled
  obtain ⟨hrecords, hlimit⟩ := acceptAll_records haccepted.accepted
  rw [hspec] at hlimit
  refine ⟨events, hscope.limits.fit, haccepted.fit, hdecoded, ?_, ?_⟩
  · by_cases hempty : stream = []
    · rw [hempty]
      exact Nat.zero_le _
    · have hle := hlimit hempty
      rw [hrecords] at hle
      have hlength : 0 + stream.length ≤ input.request.limits.maxEvents := hle
      omega
  · have htotal := haccepted.total
    rw [haccepted.bytes, List.append_nil] at htotal
    exact htotal

end valid

/-! ## The validation of what was written -/

section evidence
variable {decode : List UInt8 → Except String EventEnvelope} {sha256 : List UInt8 → String}
  {registry : EventContractRegistry} {request : RecordingRequest} {input : RecordingValidationInput}
  {file : EventFile} {first : ℕ} {lines : List (List UInt8)} {rest : List UInt8} {events : List EventEnvelope}
  {validated : ValidatedRecording}

theorem staged_eq_false (h : request.staged = false) : request.warmupFrames = 0 ∧ request.startOn = none := by
  simpa [RecordingRequest.staged] using h

theorem ScopeChecked.observationClasses (h : ScopeChecked input) (hplain : input.request.staged = false) :
    input.observationClasses = [] := by
  unfold RecordingValidationInput.observationClasses
  rw [(h.plain hplain).1]
  rfl

theorem Inferred.fits (hinput : Inferred request first input)
    (h : validateRecordingFile decode sha256 file registry input = .ok validated)
    (hbytes : file.bytes = lines.flatten ++ rest) (hwhole : ∀ line ∈ lines, WholeLine line) (hrest : newline ∉ rest)
    (hdecoded : lines.map decode = events.map Except.ok) :
    request.staged = false ∧ StopAhead request.stopOn events ∧ first + request.frames < 2 ^ 64 ∧
      ∀ event ∈ events, first ≤ event.frame := by
  unfold validateRecordingFile at h
  simp only [bind_eq_ok, require_eq_ok, exists_const, mapError_eq_ok] at h
  obtain ⟨maximumEnd, hscope, _, _, _, _, report, hvalid, hstop, -⟩ := h
  obtain ⟨hchecked, -⟩ := (checkScope_iff).mp hscope
  have hplain : input.request.staged = false := by
    by_contra hstaged
    exact (hchecked.stage (by simpa using hstaged)).2.1 hinput.eventClasses
  have hplain' : request.staged = false := hinput.request_eq ▸ hplain
  obtain ⟨hwarmup, -⟩ := staged_eq_false hplain'
  have hstart := hinput.fStart
  have hmaximum := hchecked.maximumEnd
  rw [hwarmup, Nat.add_zero] at hstart
  rw [hinput.request_eq, hstart] at hmaximum
  obtain ⟨rules, lines', rest', st, haccepted⟩ := exists_acceptedFile hvalid
  obtain ⟨rfl, rfl⟩ := lines_unique (fun line hmem => (haccepted.fit.whole line hmem).1) haccepted.fit.rest.1 hwhole
    hrest (haccepted.bytes.symm.trans hbytes)
  have hruled := haccepted.ruled
  rw [hinput.observationStart, hchecked.observationClasses hplain] at hruled
  have hrules := hchecked.plainRules hplain hruled
  rw [hstart] at hrules
  have hreport := hvalid.symm.trans (haccepted.validate hchecked.limits.fit)
  have hnone : st.stopEvent = none := by
    rw [hinput.stopEvent, Except.ok.inj hreport] at hstop
    exact hstop.symm
  obtain ⟨hspec, -, -⟩ := streamRules_spec hruled
  have hoccurrence : ∀ stop ∈ rules.spec.stopOn, stop.occurrence ≠ 0 := by
    rw [hspec]
    exact streamRules_occurrence hruled
  have hinv := acceptAll_stop hrules (StopInv.start hoccurrence) hdecoded haccepted.accepted
  have hahead := hinv.stop.mp hnone
  rw [hspec, List.nil_append] at hahead
  refine ⟨hplain', ?_, hmaximum, fun event hmem => (acceptAll_frames hrules haccepted.accepted hdecoded event hmem).1⟩
  rw [← hinput.request_eq]
  exact hahead

theorem checkIdentities_of_selectClasses {identities : List EventClassIdentity}
    {selected selected' : List (String × EventContract)} (h : selectClasses registry selected identities = .ok selected') :
    RecordingValidationInput.checkIdentities registry identities = .ok () := by
  induction identities generalizing selected with
  | nil => rfl
  | cons identity identities ih =>
    simp only [selectClasses, bind_eq_ok, mapError_eq_ok] at h
    obtain ⟨contract, hcontract, h⟩ := h
    simp only [RecordingValidationInput.checkIdentities, bind_eq_ok, mapError_eq_ok]
    exact ⟨contract, hcontract, ih h⟩

theorem streamRules_rescope {spec spec' : EventValidationSpec} {rules : StreamRules}
    (hclasses : spec'.eventClasses = spec.eventClasses) (hfilters : spec'.eventFilters = spec.eventFilters)
    (hstopOn : spec'.stopOn = spec.stopOn) (h : streamRules registry spec none [] = .ok rules) :
    streamRules registry spec' none [] = .ok { rules with spec := spec' } := by
  unfold streamRules at h ⊢
  simp only [bind_eq_ok, require_eq_ok, exists_const, hclasses, hfilters, hstopOn] at h ⊢
  obtain ⟨selected, hselected, hnonempty, filters, hchecked, u, hstop, h⟩ := h
  obtain rfl := Except.ok.inj h
  exact ⟨selected, hselected, hnonempty, filters, hchecked, u, hstop, rfl⟩

theorem shifted_start {rules rules' : StreamRules} {first' last last' : ℕ} (hplain : PlainRules rules first last)
    (hplain' : PlainRules rules' first' last') (hle : first ≤ first') :
    StreamRules.Shifted first first' rules.start rules'.start := by
  have hstart : rules'.start = StreamRules.shift rules.start first' first' := by
    simp only [StreamRules.start, StreamRules.shift, hplain'.interval, hplain.anchor, hplain'.anchor]
  by_cases heq : first = first'
  · refine .inl ⟨heq, ?_⟩
    rw [hstart, ← heq]
    simp only [StreamRules.start, StreamRules.shift, hplain.interval]
  · refine .inr ⟨by omega, ?_, ?_, first', first', hstart⟩
    · simp only [StreamRules.start, hplain.interval]
    · simp only [StreamRules.start, hplain.interval]

theorem Inferred.scopeChecked (hinput : Inferred request first input) {genuine : RecordingValidationInput}
    (hrequest : genuine.request = request) (hgenuine : ScopeChecked genuine) (hplain : request.staged = false)
    (hfits : first + request.frames < 2 ^ 64) : ScopeChecked input := by
  obtain ⟨hwarmup, -⟩ := staged_eq_false hplain
  have hstart := hinput.fStart
  have hend := hinput.fEnd
  have hterminal := hinput.fOrigin
  rw [hwarmup] at hstart hend hterminal
  rw [if_neg (Nat.lt_irrefl 0)] at hterminal
  have hfOrigin : input.fOrigin = input.fStart := by
    unfold RecordingValidationInput.fOrigin
    rw [hterminal]
    rfl
  rw [← hrequest] at hinput hplain hwarmup hfits hend
  constructor
  · rw [hinput.request_eq]
    exact hgenuine.limits
  · rw [hinput.request_eq]
    exact hgenuine.total
  · rw [hinput.request_eq]
    exact hgenuine.frames
  · rw [hinput.request_eq]
    exact hgenuine.maxFrames
  · rw [hinput.request_eq]
    omega
  · rw [hinput.request_eq]
    exact hgenuine.nodup
  · rw [hinput.request_eq, hfOrigin, hwarmup]
    rfl
  · omega
  · omega
  · intro _
    rw [hinput.request_eq, hterminal]
    exact ⟨(hgenuine.plain hplain).1, fun _ hmem => (nomatch hmem)⟩
  · intro hstaged
    rw [hinput.request_eq, hplain] at hstaged
    cases hstaged
  · rw [hinput.request_eq]
    omega

theorem Inferred.acceptedFile {stream : List (List UInt8)} (hinput : Inferred request first input)
    (hvalid : ValidStream decode sha256 registry request (lines ++ stream))
    (hbytes : file.bytes = lines.flatten ++ rest) (hfault : file.fault = none)
    (hrest : newline ∉ rest ∧ rest.length ≤ request.limits.maxLineBytes)
    (htotal : file.bytes.length ≤ request.limits.maxBytes)
    (hdecoded : lines.map decode = events.map Except.ok) (hplain : request.staged = false)
    (hahead : StopAhead request.stopOn events) (hfits : first + request.frames < 2 ^ 64)
    (hfirst : ∀ event ∈ events, first ≤ event.frame) (hhead : ∃ event ∈ events, event.frame = first) :
    ScopeChecked input ∧ request.initialSnapshots = [] ∧
      ∃ rules st, AcceptedFile decode registry input.spec none [] file rules lines rest st ∧
        st.stopEvent = none := by
  obtain ⟨genuine, genuineFile, rules, st, hrequest, hscope, hobservation, haccepted⟩ := hvalid.accepted
  obtain ⟨hwarmup, hstartOn⟩ := staged_eq_false hplain
  have hchecked := hinput.scopeChecked hrequest hscope hplain hfits
  subst hrequest
  have hstart := hinput.fStart
  have hend := hinput.fEnd
  rw [hwarmup] at hstart hend
  -- the genuine stream has no aligned start either
  obtain ⟨hnone, hsnapshots⟩ : genuine.observationStart = none ∧ genuine.request.initialSnapshots = [] := by
    unfold RecordingValidationInput.checkObservationStart at hobservation
    rw [hstartOn] at hobservation
    cases hsome : genuine.observationStart with
    | none =>
      rw [hsome] at hobservation
      exact ⟨rfl, require_eq_ok.mp hobservation⟩
    | some start =>
      rw [hsome] at hobservation
      cases hobservation
  have hruled := haccepted.ruled
  rw [hnone, hscope.observationClasses hplain] at hruled
  have hspecs : input.spec.eventClasses = genuine.spec.eventClasses ∧
      input.spec.eventFilters = genuine.spec.eventFilters ∧ input.spec.stopOn = genuine.spec.stopOn ∧
      input.spec.limits = genuine.spec.limits := by
    simp only [RecordingValidationInput.spec, hinput.request_eq, and_self]
  obtain ⟨hclasses, hfilters, hstopOn, hlimits⟩ := hspecs
  have hruled' := streamRules_rescope hclasses hfilters hstopOn hruled
  obtain ⟨hspec, -, -⟩ := streamRules_spec hruled
  have hrules := hscope.plainRules hplain hruled
  have hplainInput : input.request.staged = false := by
    rw [hinput.request_eq]
    exact hplain
  have hrules' := hchecked.plainRules hplainInput hruled'
  rw [hstart, hend] at hrules'
  -- the events that were received start no earlier than the genuine scope
  obtain ⟨mid, hmid, -⟩ := acceptAll_append.mp haccepted.accepted
  have hgenuine := acceptAll_frames hrules hmid hdecoded
  have hle : genuine.fStart ≤ first := by
    obtain ⟨event, hmem, rfl⟩ := hhead
    exact (hgenuine event hmem).1
  have hsame : SameChecks rules { rules with spec := input.spec } := by
    refine ⟨rfl, rfl, ?_, ?_⟩
    · rw [hlimits, hspec]
    · rw [hstopOn, hspec]
  have hlast := hscope.fEnd
  obtain ⟨st', haccept, hshifted⟩ := acceptAll_shift hsame hrules hrules' hle (by omega) hdecoded hfirst
    (shifted_start hrules hrules' hle) hmid
  have hoccurrence : ∀ stop ∈ input.spec.stopOn, stop.occurrence ≠ 0 := streamRules_occurrence hruled'
  have hinv := acceptAll_stop hrules' (StopInv.start hoccurrence) hdecoded haccept
  have hstop : st'.stopEvent = none := by
    refine hinv.stop.mpr ?_
    rw [List.nil_append]
    show StopAhead input.spec.stopOn events
    rw [hstopOn]
    exact hahead
  refine ⟨hchecked, hsnapshots, _, st', ⟨hruled', hbytes, hfault, ⟨?_, ?_⟩, ?_, haccept, fun _ => hstop, ?_⟩, hstop⟩
  · intro line hmem
    rw [hlimits]
    exact haccepted.fit.whole line (List.mem_append_left _ hmem)
  · rw [hlimits]
    exact hrest
  · rw [hlimits]
    exact htotal
  · rw [acceptAll_anchor hrules'.anchor haccept]
    show rules.anchor.isNone = true
    rw [hrules.anchor]
    rfl

theorem Inferred.integrity (hinput : Inferred request first input) (stream : EventStreamReport) (maximumEnd : ℕ) :
    input.integrity stream maximumEnd = .unverifiable := by
  have hcomplete : input.complete stream maximumEnd = false := by
    simp [RecordingValidationInput.complete, hinput.operation]
  simp [RecordingValidationInput.integrity, hcomplete, hinput.claimed]

theorem Inferred.validate {rules : StreamRules} {st : StreamState} (hinput : Inferred request first input)
    (hplain : request.staged = false) (hsnapshots : request.initialSnapshots = []) (hchecked : ScopeChecked input)
    (haccepted : AcceptedFile decode registry input.spec none [] file rules lines rest st)
    (hstop : st.stopEvent = none) :
    ∃ validated, validateRecordingFile decode sha256 file registry input = .ok validated ∧
      validated.integrity = .unverifiable := by
  obtain ⟨-, hstartOn⟩ := staged_eq_false hplain
  have hplainInput : input.request.staged = false := by
    rw [hinput.request_eq]
    exact hplain
  have hidentities : RecordingValidationInput.checkIdentities registry input.request.eventClasses = .ok () := by
    have hruled := haccepted.ruled
    simp only [streamRules, bind_eq_ok] at hruled
    obtain ⟨selected, hselected, -⟩ := hruled
    exact checkIdentities_of_selectClasses hselected
  have hobservation : input.checkObservationStart = .ok () := by
    unfold RecordingValidationInput.checkObservationStart
    rw [hinput.request_eq, hstartOn, hinput.observationStart]
    exact require_eq_ok.mpr hsnapshots
  have hvalidate : validateEventStreamAtStart decode sha256 file registry input.spec none [] = _ :=
    haccepted.validate hchecked.limits.fit
  rw [← hchecked.observationClasses hplainInput, ← hinput.observationStart] at hvalidate
  obtain ⟨report, hreport⟩ : ∃ report, validateEventStreamAtStart decode sha256 file registry input.spec
      input.observationStart input.observationClasses = .ok report ∧ report.stopEvent = none :=
    ⟨_, hvalidate, hstop⟩
  have hok : validateRecordingFile decode sha256 file registry input =
      .ok ⟨report, input.integrity report (input.fStart + input.request.frames), input.terminal⟩ := by
    unfold validateRecordingFile
    simp only [bind_eq_ok, require_eq_ok, exists_const, mapError_eq_ok]
    refine ⟨_, checkScope_iff.mpr ⟨hchecked, rfl⟩, (), hidentities, (), hobservation, _, hreport.1, ?_, (), ?_,
      ?_, rfl⟩
    · rw [hinput.stopEvent, hreport.2]
    · unfold RecordingValidationInput.checkReportedClasses
      rw [if_pos hinput.eventClasses]
    · exact fun h => hinput.operation h.1
  exact ⟨_, hok, hinput.integrity _ _⟩

end evidence

/-! ## Failed recordings -/

section failed
variable (decode : List UInt8 → Except String EventEnvelope) (sha256 : List UInt8 → String)
  (registry : EventContractRegistry)

/-- What the sink has written of a valid stream is validated with the inferred report just where it fits, and then as
something nothing can be said about. A report is never validated as complete where the sink found a partial record
or an error. -/
theorem failed_recording_evidence (display : LinkError → String) (origin : RecordingOrigin)
    (request : RecordingRequest) (link : LinkSnapshot) (error : LinkError) (stream : List (List UInt8))
    (refused syncError : Option String) (reads : List SinkRead) (file : EventFile)
    (hvalid : ValidStream decode sha256 registry request stream)
    (hreads : reads.filterMap SinkRead.line? <+: stream)
    (hfile : file.bytes = (runSink decode request.limits refused reads syncError).2) (hfault : file.fault = none)
    (hreceived : 0 < (runSink decode request.limits refused reads syncError).1.events) :
    let outcome := (runSink decode request.limits refused reads syncError).1
    ((∃ input validated, inferredValidation display origin request outcome link error = .ok input ∧
        validateRecordingFile decode sha256 file registry
          { input with terminal := applySinkOutcome input.terminal outcome } = .ok validated ∧
        validated.integrity = .unverifiable) ↔
      EvidenceFits request (lineEvents decode (stream.take outcome.events))) ∧
    ∀ (input : RecordingValidationInput) (sink : SinkOutcome) (other : EventFile) (validated : ValidatedRecording),
      sink.truncated = true ∨ sink.error.isSome = true →
      validateRecordingFile decode sha256 other registry
        { input with terminal := applySinkOutcome input.terminal sink } = .ok validated →
      validated.integrity ≠ .complete := by
  intro outcome
  refine ⟨?_, fun input sink other validated hsink h => ?_⟩
  · obtain ⟨events, hwritable⟩ := hvalid.writable
    obtain ⟨tail, hwrote⟩ := @runSink_written decode _ _ _ refused syncError _ hwritable hreads
    have hbytes : file.bytes = (stream.take outcome.events).flatten ++ tail := hfile.trans hwrote.file_eq
    have hdecoded : (stream.take outcome.events).map decode = (events.take outcome.events).map Except.ok := by
      rw [List.map_take, List.map_take, hwritable.decoded]
    have hwhole : ∀ line ∈ stream.take outcome.events, WholeLine line := fun line hmem =>
      (hwritable.lines.whole line (List.mem_of_mem_take hmem)).1
    rw [lineEvents_eq hdecoded]
    -- the first frame is that of the first event
    obtain ⟨head, rest, hevents⟩ : ∃ head rest, events.take outcome.events = head :: rest := by
      have hlength := congrArg List.length hdecoded
      rw [List.length_map, List.length_map, List.length_take, Nat.min_eq_left hwrote.le] at hlength
      exact List.exists_cons_of_length_pos (hlength ▸ hreceived)
    have hfirst : outcome.firstFrame.getD 0 = head.frame := by
      have hframe : outcome.firstFrame = _ := hwrote.firstFrame_eq
      rw [hframe, hevents]
      rfl
    rw [hevents] at hdecoded ⊢
    constructor
    · rintro ⟨input, validated, hinferred, hvalidated, -⟩
      have hinput := inferredValidation_eq_ok hinferred
      rw [hfirst] at hinput
      obtain ⟨hplain, hahead, hfits, hframes⟩ := hinput.fits hvalidated hbytes hwhole hwrote.tail.1 hdecoded
      refine ⟨hplain, hahead, ?_, ?_⟩
      · rintro first ⟨⟩
        exact hfits
      · rintro first ⟨⟩
        exact hframes
    · rintro ⟨hplain, hahead, hfits, hframes⟩
      obtain ⟨hwarmup, -⟩ := staged_eq_false hplain
      have hscope : InferredScopeFits request outcome := by
        have hlt := hfits head rfl
        rw [InferredScopeFits, hfirst, hwarmup]
        omega
      obtain ⟨input, hinferred⟩ := (@inferredValidation_ok_iff display origin _ _ link error).mpr hscope
      have hinput := inferredValidation_eq_ok hinferred
      rw [hfirst] at hinput
      have hvalid' : ValidStream decode sha256 registry request
          (stream.take outcome.events ++ stream.drop outcome.events) := by
        rwa [List.take_append_drop]
      have hbytes' : file.bytes.length ≤ request.limits.maxBytes := by
        rw [hfile]
        exact hwrote.bytes
      obtain ⟨hchecked, hsnapshots, rules, st, haccepted, hstop⟩ := hinput.acceptedFile hvalid' hbytes hfault
        hwrote.tail hbytes' hdecoded hplain hahead (hfits head rfl) (hframes head rfl) ⟨head, by simp, rfl⟩
      obtain ⟨validated, hvalidated, hintegrity⟩ := hinput.validate hplain hsnapshots hchecked haccepted hstop
      exact ⟨input, validated, hinferred, hvalidated, hintegrity⟩
  · have hoperation := (applySinkOutcome_facts input.terminal sink).2.2.2.2 (.inr hsink)
    unfold validateRecordingFile at h
    simp only [bind_eq_ok, require_eq_ok, exists_const] at h
    obtain ⟨maximumEnd, -, _, -, _, -, report, -, -, _, -, -, h⟩ := h
    obtain rfl := Except.ok.inj h
    show RecordingValidationInput.integrity _ report maximumEnd ≠ _
    have hcomplete : RecordingValidationInput.complete
        { input with terminal := applySinkOutcome input.terminal sink } report maximumEnd = false := by
      simp [RecordingValidationInput.complete, hoperation]
    unfold RecordingValidationInput.integrity
    rw [hcomplete]
    split_ifs <;> simp_all

end failed

/-! ## One event, and the adapter is not heard of again -/

section samples

set_option maxRecDepth 4000 in
theorem boundaryLine_whole : ∀ line ∈ [boundaryLine], WholeLine line := by
  have hwhole : newline ∉ boundaryLine.dropLast ∧ boundaryLine = boundaryLine.dropLast ++ [newline] := by
    simp only [show boundaryLine = _ from toUTF8_ascii (by decide +kernel)]
    decide +kernel
  intro line hmem
  rw [List.mem_singleton.mp hmem]
  exact ⟨boundaryLine.dropLast, hwhole.1, hwhole.2⟩

theorem boundaryFile_bytes : boundaryFile.bytes = [boundaryLine].flatten := by
  simp only [EventFile.bytes, boundaryFile, List.flatten_cons, List.flatten_nil, List.append_nil]
  exact List.take_append_drop _ _

/-- The boundary is received, and then the connection times out. -/
def boundaryReads : List SinkRead := [.line boundaryLine none, .failed "sink deadline"]

def boundaryOutcome : SinkOutcome := ⟨1, 184, some 7, some 7, false, some "sink event read failed: sink deadline"⟩

/-- The report that is inferred from the boundary. -/
def boundaryInferred (request : RecordingRequest) (fOrigin : Option ℕ) (fStart fEnd : ℕ) :
    RecordingValidationInput where
  request := request
  origin := .nextFrameBoundary
  fStart := fStart
  fEnd := fEnd
  observationStart := none
  terminal :=
    { operationOutcome := .failed, executionOutcome := .adapterError, claimedIntegrity := .unverifiable
      finalExecutionState := .unknown, finalFrame := 8, fOrigin := fOrigin
      counters := ⟨1, 1, 184, 0⟩, loss := ⟨0, false, none⟩
      cleanup := ⟨.unverifiable, .unverifiable, .released⟩
      stopEvent := none, reason := some "request timed out", eventClasses := [] }

/-- The frame of the boundary follows a warmup frame. -/
def warmupInput : RecordingValidationInput where
  request := (observedBoundaryRequest 2).request
  origin := .nextFrameBoundary
  fStart := 7
  fEnd := 8
  observationStart := none
  terminal := { boundaryInput.terminal with
    fOrigin := some 6
    eventClasses := [⟨"frame_boundary", true, some ⟨7, 8⟩, 1, 0⟩] }

set_option maxRecDepth 4000 in
theorem boundaryStream_accepted :
    (∀ input ∈ [boundaryInput, warmupInput], validateEventStreamAtStart decodeBoundary boundaryDigest boundaryFile
      frameBoundaryRegistry input.spec input.observationStart input.observationClasses =
        .ok boundaryRecording.stream) ∧
    ∀ request ∈ [boundaryInput.request, (observedBoundaryRequest 2).request],
      runSink decodeBoundary request.limits none boundaryReads none = (boundaryOutcome, boundaryFile.bytes) := by
  unfold decodeBoundary boundaryFile boundaryReads
  simp only [show boundaryLine = _ from toUTF8_ascii (by decide +kernel)]
  decide +kernel

theorem failed_recording_evidence_plain :
    runSink decodeBoundary boundaryInput.request.limits none boundaryReads none =
        (boundaryOutcome, boundaryFile.bytes) ∧
      ∃ input validated, inferredValidation (fun _ => "request timed out") .nextFrameBoundary boundaryInput.request
          boundaryOutcome ⟨false, false⟩ .timeout = .ok input ∧
        validateRecordingFile decodeBoundary boundaryDigest boundaryFile frameBoundaryRegistry
          { input with terminal := applySinkOutcome input.terminal boundaryOutcome } = .ok validated ∧
        validated.integrity = .unverifiable := by
  have hvalid : ValidStream decodeBoundary boundaryDigest frameBoundaryRegistry boundaryInput.request [boundaryLine] :=
    ⟨boundaryInput, boundaryFile, boundaryRecording.stream, 8, rfl, boundaryFile_bytes, boundaryLine_whole,
      by decide +kernel, by decide +kernel, boundaryStream_accepted.1 _ List.mem_cons_self⟩
  have hsink : runSink decodeBoundary boundaryInput.request.limits none boundaryReads none =
      (boundaryOutcome, boundaryFile.bytes) := boundaryStream_accepted.2 _ List.mem_cons_self
  have hevidence := failed_recording_evidence decodeBoundary boundaryDigest frameBoundaryRegistry
    (fun _ => "request timed out") .nextFrameBoundary boundaryInput.request ⟨false, false⟩ .timeout [boundaryLine]
    none none boundaryReads boundaryFile hvalid (List.prefix_refl _) (by rw [hsink]) rfl (by rw [hsink]; decide)
  rw [hsink] at hevidence
  refine ⟨hsink, hevidence.1.mpr ?_⟩
  have hevents : lineEvents decodeBoundary ([boundaryLine].take 1) = [boundaryEvent] :=
    lineEvents_eq (by simp [decodeBoundary])
  rw [show boundaryOutcome.events = 1 from rfl, hevents]
  refine ⟨by decide, ?_, ?_, ?_⟩
  · rintro stop ⟨⟩
  · rintro first ⟨⟩
    decide
  · rintro first ⟨⟩
    simp

/-- After a warmup the evidence is refused: there are no facts about the classes in an inferred report. -/
theorem failed_recording_refused :
    effectiveRequest warmupCapability (observedBoundary (some 2)) noMovie [] [] none =
        .ok (observedBoundaryRequest 2) ∧
      ValidStream decodeBoundary boundaryDigest frameBoundaryRegistry (observedBoundaryRequest 2).request
        [boundaryLine] ∧
      boundaryReads.filterMap SinkRead.line? <+: [boundaryLine] ∧
      runSink decodeBoundary (observedBoundaryRequest 2).request.limits none boundaryReads none =
        (boundaryOutcome, boundaryFile.bytes) ∧
      inferredValidation (fun _ => "request timed out") .nextFrameBoundary (observedBoundaryRequest 2).request
        boundaryOutcome ⟨false, false⟩ .timeout =
        .ok (boundaryInferred (observedBoundaryRequest 2).request (some 7) 8 9) ∧
      validateRecordingFile decodeBoundary boundaryDigest boundaryFile frameBoundaryRegistry
        { boundaryInferred (observedBoundaryRequest 2).request (some 7) 8 9 with
          terminal := applySinkOutcome (boundaryInferred (observedBoundaryRequest 2).request (some 7) 8 9).terminal
            boundaryOutcome } = .error .eventClassFacts :=
  ⟨by decide +kernel, ⟨warmupInput, boundaryFile, boundaryRecording.stream, 8, rfl, boundaryFile_bytes,
    boundaryLine_whole, by decide +kernel, by decide +kernel,
    boundaryStream_accepted.1 _ (List.mem_cons_of_mem _ List.mem_cons_self)⟩, List.prefix_refl _,
    boundaryStream_accepted.2 _ (List.mem_cons_of_mem _ List.mem_cons_self), by decide +kernel, by decide +kernel⟩

end samples

end Emucap.Live
