import Emucap.Bundle.EventStream
import Emucap.Bundle.Recording
import Emucap.Lib.Text

/-!
# Complete recordings

A recording that is validated as complete is complete (`CompleteRecording`). The stream and the recording compute
coverage on their own, and the two meet in the frame counts.
-/

namespace Emucap.Bundle

open Emucap.Lib

/-! ## The interval of a class -/

namespace RecordingValidationInput

variable {input : RecordingValidationInput}

theorem find?_foldl_insert {ids : List String} {f : String → FrameInterval} {map : List (String × FrameInterval)}
    {id : String} : OrdMap.find? id (ids.foldl (fun map id => OrdMap.insert id (f id) map) map) =
      if id ∈ ids then some (f id) else OrdMap.find? id map := by
  induction ids generalizing map with
  | nil => simp
  | cons head rest ih =>
    rw [List.foldl_cons, ih, OrdMap.find?_insert]
    by_cases hrest : id ∈ rest
    · rw [if_pos hrest, if_pos (List.mem_cons_of_mem _ hrest)]
    · by_cases hhead : id = head
      · rw [if_neg hrest, if_pos hhead, hhead, if_pos List.mem_cons_self]
      · rw [if_neg hrest, if_neg hhead, if_neg (by simp [hhead, hrest])]

theorem find?_classIntervals {id : String} (h : id ∈ input.request.requestedIds) :
    OrdMap.find? id input.classIntervals = some (input.classInterval id) := by
  unfold classIntervals
  rw [find?_foldl_insert, if_pos h]

/-- The scope of the recording, as far as it was checked before the stream. -/
structure Scoped (input : RecordingValidationInput) (maximumEnd : ℕ) : Prop where
  origin : input.fOrigin + input.request.warmupFrames = input.fStart
  maximumEnd_eq : maximumEnd = input.fStart + input.request.frames

theorem checkScope_eq_ok {maximumEnd : ℕ} (h : input.checkScope = .ok maximumEnd) : input.Scoped maximumEnd := by
  unfold checkScope at h
  obtain ⟨⟨⟩, -, h⟩ := bind_eq_ok.mp h
  obtain ⟨total, -, h⟩ := orError_bind_eq_ok.mp h
  obtain ⟨-, h⟩ := require_bind_eq_ok.mp h
  obtain ⟨expected, hexpected, h⟩ := orError_bind_eq_ok.mp h
  obtain ⟨maximum, hmaximum, h⟩ := orError_bind_eq_ok.mp h
  obtain ⟨⟨-, hstart, -⟩, h⟩ := require_bind_eq_ok.mp h
  obtain ⟨-, h⟩ := require_bind_eq_ok.mp h
  obtain rfl := Except.ok.inj h
  refine ⟨?_, (checkedAdd_eq_some.mp hmaximum).2⟩
  rw [← (checkedAdd_eq_some.mp hexpected).2, hstart]

theorem Scoped.classInterval_fEnd {maximumEnd : ℕ} (h : input.Scoped maximumEnd) (hframes : 0 < input.actualFrames)
    (id : String) : (input.classInterval id).fEnd = input.fEnd ∧ (input.classInterval id).fStart < input.fEnd := by
  have horigin := h.origin
  have hend : input.fStart < input.fEnd := by
    unfold actualFrames at hframes
    omega
  unfold classInterval
  split <;> dsimp only
  · exact ⟨Nat.max_eq_left (by omega), by omega⟩
  · exact ⟨Nat.max_eq_left (by omega), by omega⟩

/-! ## What was compared -/

structure Completed (input : RecordingValidationInput) (stream : EventStreamReport) (maximumEnd : ℕ) : Prop where
  outcome : input.terminal.executionOutcome = .targetReached ∨ input.terminal.executionOutcome = .eventStop
  frames : 0 < input.actualFrames
  countersDropped : input.terminal.counters.dropped = 0
  lossDropped : input.terminal.loss.dropped = 0
  truncated : input.terminal.loss.truncated = false
  gap : input.terminal.loss.firstSequenceGap = none
  classes : ∀ facts ∈ input.terminal.eventClasses, facts.armed = true ∧ facts.dropped = 0
  counters : input.countersMatch stream = true
  completeness : stream.completeness = .complete
  boundary : stream.frameBoundaryRecords = input.expectedRecords "frame_boundary"
  completed : input.completedFrameCoverage stream = true
  stop : input.stopMatches stream maximumEnd = true

theorem complete_eq_true {stream : EventStreamReport} {maximumEnd : ℕ}
    (h : input.complete stream maximumEnd = true) : input.Completed stream maximumEnd := by
  unfold complete at h
  simp only [Bool.and_eq_true, Bool.or_eq_true, beq_iff_eq, decide_eq_true_eq, Bool.not_eq_true',
    Option.isNone_iff_eq_none, List.all_eq_true] at h
  obtain ⟨⟨⟨⟨⟨⟨⟨⟨⟨⟨⟨⟨⟨⟨⟨⟨-, houtcome⟩, -⟩, -⟩, hframes⟩, hdropped⟩, hloss⟩, htruncated⟩, hgap⟩, hclasses⟩,
    hcounters⟩, hcompleteness⟩, hboundary⟩, hcompleted⟩, hstop⟩, -⟩, -⟩ := h
  exact ⟨houtcome, hframes, hdropped, hloss, htruncated, hgap, hclasses, hcounters, hcompleteness, hboundary,
    hcompleted, hstop⟩

end RecordingValidationInput

/-! ## The theorem -/

/-- The recording stopped on an event other than a completed frame, in the last frame of its scope. -/
def StoppedInside (input : RecordingValidationInput) : Prop :=
  ∃ stop, input.terminal.stopEvent = some stop ∧ stop.eventClass ≠ "frame_completed" ∧ stop.frame + 1 = input.fEnd

/-- What a complete recording is, for the lines of its file and the events they are. -/
structure CompleteRecording (decode : List UInt8 → Except String EventEnvelope) (registry : EventContractRegistry)
    (input : RecordingValidationInput) (file : EventFile) (lines : List (List UInt8))
    (events : List EventEnvelope) : Prop where
  bytes : file.bytes = lines.flatten ∧ file.fault = none
  whole : ∀ line ∈ lines, WholeLine line
  decoded : lines.map decode = events.map Except.ok
  sequences : ∀ (k : ℕ) (event : EventEnvelope), events[k]? = some event → event.sequence = k
  requested : ∀ event ∈ events, ∃ identity ∈ input.request.eventClasses, ∃ contract,
    identity.id = event.eventClass ∧ registry.get event.eventClass = .ok contract ∧
      contract.contractSha256 = identity.contractSha256 ∧ event.contractSha256 = contract.contractSha256 ∧
      event.clock.domain = contract.clockDomain
  interval : ∀ id, (input.classInterval id).fEnd = input.fEnd
  inScope : ∀ event ∈ events, (input.classInterval event.eventClass).fStart ≤ event.frame ∧
    event.frame < (input.classInterval event.eventClass).fEnd
  filtered : ∀ event ∈ events, ∀ filter ∈ input.request.eventFilters, filter.eventClass = event.eventClass →
    ∀ path start length, EventFilterTerm.u64Range path start length ∈ filter.terms →
      ∃ value, (payloadValue event.payload path).bind Json.asU64 = some value ∧ start ≤ value ∧
        value < start + length
  ticks : TicksOrdered events
  boundary : classFrames "frame_boundary" events =
    List.range' (input.classInterval "frame_boundary").fStart
      (input.fEnd - (input.classInterval "frame_boundary").fStart)
  completed : "frame_completed" ∈ input.request.requestedIds →
    (¬ StoppedInside input ∧ classFrames "frame_completed" events =
      List.range' (input.classInterval "frame_completed").fStart
        (input.fEnd - (input.classInterval "frame_completed").fStart)) ∨
    (StoppedInside input ∧ classFrames "frame_completed" events =
      List.range' (input.classInterval "frame_completed").fStart
        (input.fEnd - 1 - (input.classInterval "frame_completed").fStart))
  counters : input.terminal.counters.events = events.length ∧
    input.terminal.counters.bytes = file.bytes.length ∧
    input.terminal.counters.frames = input.fEnd - input.fStart
  window : input.fEnd = input.fStart + input.request.frames ∨
    ∃ stop, input.terminal.stopEvent = some stop ∧ stop.frame + 1 = input.fEnd
  lossless : input.terminal.counters.dropped = 0 ∧ input.terminal.loss.dropped = 0 ∧
    input.terminal.loss.truncated = false ∧ input.terminal.loss.firstSequenceGap = none ∧
    ∀ facts ∈ input.terminal.eventClasses, facts.dropped = 0
  stopLast : ∀ stop, input.terminal.stopEvent = some stop →
    ∃ event occurrence, events.getLast? = some event ∧ stop = event.stopFacts occurrence

section complete

variable {decode : List UInt8 → Except String EventEnvelope} {registry : EventContractRegistry}
  {input : RecordingValidationInput} {file : EventFile} {stream : EventStreamReport} {rules : StreamRules}
  {st : StreamState} {partialLine : Bool} {lines : List (List UInt8)} {events : List EventEnvelope}
  {maximumEnd : ℕ}

theorem RulesFor.interval_eq (h : RulesFor registry input.spec rules) {id : String}
    (hid : id ∈ input.request.requestedIds) : rules.interval id = input.classInterval id := by
  unfold StreamRules.interval
  rw [h.spec_eq]
  exact congrArg (Option.getD · _) (RecordingValidationInput.find?_classIntervals hid)

theorem Reported.requested (h : Reported decode registry input.spec file stream rules st partialLine lines events)
    {event : EventEnvelope} (hevent : event ∈ events) : event.eventClass ∈ input.request.requestedIds := by
  obtain ⟨contract, hmet, -⟩ := h.inv.contracts event hevent
  obtain ⟨identity, hmem, hid, -⟩ := h.rulesFor.selects.contract hmet.selected
  exact List.mem_map.mpr ⟨identity, hmem, hid⟩

theorem streamCompleteness_eq_complete (h : streamCompleteness rules st partialLine = .complete) :
    partialLine = false ∧ rules.selects "frame_boundary" = true ∧
      st.nextFrameBoundary = (rules.interval "frame_boundary").fEnd := by
  unfold streamCompleteness at h
  simp only at h
  split_ifs at h with hunfinished hcomplete
  simp only [Bool.and_eq_true, beq_iff_eq] at hcomplete
  exact ⟨by simpa using hunfinished, hcomplete.1.1, hcomplete.1.2⟩

theorem termAdmits_u64Range {payload : Json} {path : String} {start length : ℕ}
    (h : StreamRules.termAdmits payload (.u64Range path start length) = true) :
    ∃ value, (payloadValue payload path).bind Json.asU64 = some value ∧ start ≤ value ∧ value < start + length := by
  obtain ⟨value, hvalue, hrange⟩ := (Option.any_eq_true _ _).mp h
  rw [Bool.and_eq_true] at hrange
  obtain ⟨last, hlast, hlt⟩ := (Option.any_eq_true _ _).mp hrange.2
  rw [(checkedAdd_eq_some.mp hlast).2] at hlt
  exact ⟨value, hvalue, of_decide_eq_true hrange.1, of_decide_eq_true hlt⟩

theorem FrameRun.frames_eq {start next records count : ℕ} {frames : List ℕ} (h : FrameRun start frames next records)
    (hrecords : records = count) : frames = List.range' start count := by
  rw [h.frames, hrecords]

theorem RecordingValidationInput.Completed.ending (h : input.Completed stream maximumEnd)
    (hscope : input.Scoped maximumEnd) (hstop : input.terminal.stopEvent = stream.stopEvent) :
    (input.terminal.stopEvent = none ∧ input.fEnd = input.fStart + input.request.frames) ∨
      (∃ stop, input.terminal.stopEvent = some stop ∧ checkedAdd stop.frame 1 = some input.fEnd ∧
        (stop.eventClass ≠ "frame_completed" → input.terminal.finalFrame = stop.frame)) := by
  have hmatches := h.stop
  unfold RecordingValidationInput.stopMatches at hmatches
  rcases h.outcome with houtcome | houtcome
  · rw [houtcome] at hmatches
    simp only [Bool.and_eq_true, beq_iff_eq, Option.isNone_iff_eq_none] at hmatches
    exact .inl ⟨hmatches.1.2, hmatches.1.1.trans hscope.maximumEnd_eq⟩
  · rw [houtcome] at hmatches
    simp only [Bool.and_eq_true] at hmatches
    obtain ⟨stop, hsome, hcloses⟩ := (Option.any_eq_true _ _).mp hmatches.2
    rw [Bool.and_eq_true, beq_iff_eq] at hcloses
    refine .inr ⟨stop, hstop.trans hsome, hcloses.1, fun hclass => ?_⟩
    have hfinal := hcloses.2
    rw [if_neg hclass] at hfinal
    exact beq_iff_eq.mp hfinal

theorem RecordingValidationInput.Completed.partialFrameStop_iff (h : input.Completed stream maximumEnd)
    (hscope : input.Scoped maximumEnd) (hstop : input.terminal.stopEvent = stream.stopEvent) :
    input.partialFrameStop stream = true ↔ StoppedInside input := by
  unfold RecordingValidationInput.partialFrameStop
  rw [Option.any_eq_true, ← hstop]
  constructor
  · rintro ⟨stop, hsome, hunfinished⟩
    simp only [Bool.and_eq_true, bne_iff_ne, beq_iff_eq] at hunfinished
    exact ⟨stop, hsome, hunfinished.1.1, (checkedAdd_eq_some.mp hunfinished.1.2).2.symm⟩
  · rintro ⟨stop, hsome, hclass, hframe⟩
    refine ⟨stop, hsome, ?_⟩
    rcases h.ending hscope hstop with ⟨hnone, -⟩ | ⟨stop', hsome', hframe', hfinal⟩
    · rw [hnone] at hsome
      cases hsome
    · obtain rfl := Option.some.inj (hsome.symm.trans hsome')
      simp only [Bool.and_eq_true, bne_iff_ne, beq_iff_eq]
      exact ⟨⟨hclass, hframe'⟩, hfinal hclass⟩

theorem RecordingValidationInput.expectedRecords_eq {id : String} (hid : id ∈ input.request.requestedIds) :
    input.expectedRecords id = (input.classInterval id).fEnd - (input.classInterval id).fStart := by
  unfold RecordingValidationInput.expectedRecords
  rw [RecordingValidationInput.find?_classIntervals hid]

theorem Reported.completed (h : Reported decode registry input.spec file stream rules st partialLine lines events)
    (hcompleted : input.Completed stream maximumEnd) (hscope : input.Scoped maximumEnd)
    (hstop : input.terminal.stopEvent = stream.stopEvent) (hid : "frame_completed" ∈ input.request.requestedIds) :
    (¬ StoppedInside input ∧ classFrames "frame_completed" events =
      List.range' (input.classInterval "frame_completed").fStart
        (input.fEnd - (input.classInterval "frame_completed").fStart)) ∨
    (StoppedInside input ∧ classFrames "frame_completed" events =
      List.range' (input.classInterval "frame_completed").fStart
        (input.fEnd - 1 - (input.classInterval "frame_completed").fStart)) := by
  have hrun := h.inv.completed
  rw [h.rulesFor.interval_eq hid] at hrun
  have hcoverage := hcompleted.completed
  unfold RecordingValidationInput.completedFrameCoverage at hcoverage
  rw [List.contains_iff_mem.mpr hid, Bool.not_true, Bool.false_or, beq_iff_eq, h.frameCompletedRecords,
    RecordingValidationInput.expectedRecords_eq hid, (hscope.classInterval_fEnd hcompleted.frames _).1] at hcoverage
  by_cases hinside : StoppedInside input
  · refine .inr ⟨hinside, hrun.frames_eq ?_⟩
    rw [(hcompleted.partialFrameStop_iff hscope hstop).mpr hinside, Bool.toNat_true] at hcoverage
    omega
  · refine .inl ⟨hinside, hrun.frames_eq ?_⟩
    have hunfinished : input.partialFrameStop stream = false :=
      Bool.eq_false_iff.mpr fun htrue => hinside ((hcompleted.partialFrameStop_iff hscope hstop).mp htrue)
    rw [hunfinished, Bool.toNat_false] at hcoverage
    omega

/-- What the stream is and what was compared with the terminal report make the recording complete. -/
theorem Reported.complete (h : Reported decode registry input.spec file stream rules st partialLine lines events)
    (hcompleted : input.Completed stream maximumEnd) (hscope : input.Scoped maximumEnd)
    (hstop : input.terminal.stopEvent = stream.stopEvent) :
    CompleteRecording decode registry input file lines events := by
  obtain ⟨hunfinished, hselects, hnext⟩ := streamCompleteness_eq_complete (h.completeness.symm.trans hcompleted.completeness)
  have hboundaryId : "frame_boundary" ∈ input.request.requestedIds :=
    (h.rulesFor.selects_iff "frame_boundary").mp hselects
  obtain ⟨rest, hbytes, hrest⟩ := h.bytes
  rw [hrest hunfinished, List.append_nil] at hbytes
  have hcounters := hcompleted.counters
  simp only [RecordingValidationInput.countersMatch, Bool.and_eq_true, beq_iff_eq] at hcounters
  exact {
    bytes := ⟨hbytes, h.fault⟩
    whole := h.inv.whole
    decoded := h.inv.decoded
    sequences := by
      intro k event hk
      have hget : (events.map EventEnvelope.sequence)[k]? = some event.sequence := by
        rw [List.getElem?_map, hk, Option.map_some]
      rw [h.inv.sequences] at hget
      obtain ⟨hlt, hval⟩ := List.getElem?_eq_some_iff.mp hget
      rw [List.getElem_range] at hval
      exact hval.symm
    requested := by
      intro event hevent
      obtain ⟨contract, hmet, -⟩ := h.inv.contracts event hevent
      obtain ⟨identity, hmem, hid, hvalid⟩ := h.rulesFor.selects.contract hmet.selected
      obtain ⟨hget, hdigest⟩ := EventContractRegistry.validateIdentity_eq_ok.mp hvalid
      exact ⟨identity, hmem, contract, hid, hid ▸ hget, hdigest, hmet.digest, hmet.domain⟩
    interval := fun id => (hscope.classInterval_fEnd hcompleted.frames id).1
    inScope := by
      intro event hevent
      obtain ⟨contract, hmet, -⟩ := h.inv.contracts event hevent
      rw [← h.rulesFor.interval_eq (h.requested hevent)]
      exact hmet.scope
    filtered := by
      intro event hevent filter hfilter hclass path start length hterm
      have hfind := h.rulesFor.filters.listed filter hfilter
      rw [hclass] at hfind
      exact termAdmits_u64Range (h.inv.filtered event hevent filter hfind _ hterm)
    ticks := h.inv.ticks
    boundary := by
      have hrun := h.inv.boundary
      rw [h.rulesFor.interval_eq hboundaryId] at hrun
      refine hrun.frames_eq ?_
      rw [← h.frameBoundaryRecords, hcompleted.boundary, RecordingValidationInput.expectedRecords_eq hboundaryId,
        (hscope.classInterval_fEnd hcompleted.frames _).1]
    completed := h.completed hcompleted hscope hstop
    counters := by
      refine ⟨hcounters.1.1.trans (h.records.trans h.inv.records), ?_, hcounters.2⟩
      rw [hcounters.1.2, h.completeBytes, h.inv.completeBytes, hbytes]
    window := by
      rcases hcompleted.ending hscope hstop with ⟨-, hend⟩ | ⟨stop, hsome, hend, -⟩
      · exact .inl hend
      · exact .inr ⟨stop, hsome, (checkedAdd_eq_some.mp hend).2.symm⟩
    lossless := ⟨hcompleted.countersDropped, hcompleted.lossDropped, hcompleted.truncated, hcompleted.gap,
      fun facts hfacts => (hcompleted.classes facts hfacts).2⟩
    stopLast := by
      intro stop hsome
      rw [hstop, h.stopEvent] at hsome
      exact h.inv.stop stop hsome }

end complete

/-- Complete recordings are complete: whatever the file, the request and the terminal report, a recording that
is validated with integrity `complete` is a `CompleteRecording` of the lines of its file. -/
theorem complete_recording {decode : List UInt8 → Except String EventEnvelope} {sha256 : List UInt8 → String}
    {file : EventFile} {registry : EventContractRegistry} {input : RecordingValidationInput}
    {recording : ValidatedRecording}
    (h : validateRecordingFile decode sha256 file registry input = .ok recording)
    (hcomplete : recording.integrity = .complete) :
    ∃ lines events, CompleteRecording decode registry input file lines events := by
  unfold validateRecordingFile at h
  obtain ⟨maximumEnd, hscope, h⟩ := bind_eq_ok.mp h
  obtain ⟨⟨⟩, -, h⟩ := bind_eq_ok.mp h
  obtain ⟨⟨⟩, -, h⟩ := bind_eq_ok.mp h
  obtain ⟨stream, hstream, h⟩ := bind_eq_ok.mp h
  obtain ⟨hstop, h⟩ := require_bind_eq_ok.mp h
  obtain ⟨⟨⟩, -, h⟩ := bind_eq_ok.mp h
  obtain ⟨-, h⟩ := require_bind_eq_ok.mp h
  obtain rfl := Except.ok.inj h
  rw [mapError_eq_ok] at hstream
  obtain ⟨rules, st, partialLine, lines, events, hreported⟩ := validateEventStreamAtStart_eq_ok hstream
  have hcompleted : input.complete stream maximumEnd = true := by
    by_contra hnot
    simp only [RecordingValidationInput.integrity, if_neg hnot] at hcomplete
    split_ifs at hcomplete
  exact ⟨lines, events, hreported.complete (RecordingValidationInput.complete_eq_true hcompleted)
    (RecordingValidationInput.checkScope_eq_ok hscope) hstop⟩

/-! ## A recording of one frame -/

def frameBoundaryContract : EventContract where
  id := "frame_boundary"
  revision := 1
  contract := "frame_boundary/v1;clock=frame:strict;frame=tick;payload=empty-object"
  contractSha256 := "498fcd52f2fa2327e0af9e9730b4314f0854a6047f57dcde16961b8a4ecb80cd"
  clockDomain := "frame"
  clockOrder := .strict
  frameRelation := .tick
  payloadKind := .emptyObject
  payloadFields := []

def frameBoundaryRegistry : EventContractRegistry where
  revision := "be0137be7b7f5d66de9ca2310a8abc4b1e58b48a98fc9078065043effaf5ba8f"
  classes := [frameBoundaryContract]
  unique := by decide
  valid := by decide

def boundaryLine : List UInt8 :=
  ("\x7b\"sequence\":0,\"class\":\"frame_boundary\",\"contract_sha256\":\"498fcd52f2fa2327e0af9e9730b4314f0854a6047f57dcde16961b8a4ecb80cd\",\"clock\":\x7b\"domain\":\"frame\",\"tick\":7\x7d,\"frame\":7,\"payload\":\x7b\x7d\x7d" ++
    "\n").toUTF8.toList

def boundaryEvent : EventEnvelope :=
  ⟨0, "frame_boundary", frameBoundaryContract.contractSha256, ⟨"frame", 7⟩, 7, .obj []⟩

/-- `serde_json` on the one line of the file. -/
def decodeBoundary (line : List UInt8) : Except String EventEnvelope :=
  if line = boundaryLine then .ok boundaryEvent else .error "expected value"

def boundaryFile : EventFile where
  chunks := [boundaryLine.take 100, boundaryLine.drop 100]
  nonempty := by decide +kernel
  fault := none

def boundaryInput : RecordingValidationInput where
  request :=
    { frames := 1, warmupFrames := 0
      eventClasses := [⟨"frame_boundary", frameBoundaryContract.contractSha256⟩]
      eventFilters := [], eventArming := [], limits := ⟨1, 1, 4096, 1024, 1000, 10⟩
      inputMovie := none, initialState := none, stopOn := none, startOn := none
      initialSnapshots := [], terminalSnapshots := [], terminalState := none }
  origin := .nextFrameBoundary
  fStart := 7
  fEnd := 8
  observationStart := none
  terminal :=
    { operationOutcome := .completed, executionOutcome := .targetReached, claimedIntegrity := .complete
      finalExecutionState := .frozen, finalFrame := 8, fOrigin := none
      counters := ⟨1, 1, 184, 0⟩, loss := ⟨0, false, none⟩
      cleanup := ⟨.released, .notAcquired, .released⟩
      stopEvent := none, reason := none, eventClasses := [] }

def boundaryDigest (_ : List UInt8) : String :=
  "86e4fa44b0a92ba722cf44a4b55721e25b2bc729a0d50f348b247c957fa6c988"

def boundaryRecording : ValidatedRecording where
  stream :=
    { sha256 := boundaryDigest boundaryLine, physicalBytes := 184, completeBytes := 184, records := 1
      firstSequence := some 0, lastSequence := some 0, frameBoundaryRecords := 1, frameCompletedRecords := 0
      classCounts := [("frame_boundary", 1)], stopEvent := none, completeness := .complete }
  integrity := .complete
  terminal := boundaryInput.terminal

set_option maxRecDepth 4000 in
theorem complete_recording_one_frame :
    validateRecordingFile decodeBoundary boundaryDigest boundaryFile frameBoundaryRegistry boundaryInput =
        .ok boundaryRecording ∧
      ∃ lines events,
        CompleteRecording decodeBoundary frameBoundaryRegistry boundaryInput boundaryFile lines events := by
  have h : validateRecordingFile decodeBoundary boundaryDigest boundaryFile frameBoundaryRegistry boundaryInput =
      .ok boundaryRecording := by
    unfold decodeBoundary boundaryFile
    simp only [show boundaryLine = _ from Lib.toUTF8_ascii (by decide +kernel)]
    decide +kernel
  exact ⟨h, complete_recording h rfl⟩

end Emucap.Bundle
