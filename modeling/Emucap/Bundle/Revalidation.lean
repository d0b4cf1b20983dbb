import Emucap.Bundle.CompleteRecording

/-!
# Validating a recording again

A manifest keeps the counts and the integrity that the validation found in place of the claimed ones. Validating the
file against these facts finds the same stream and the same integrity.
-/

namespace Emucap.Bundle

open Emucap.Lib

/-- The facts that a manifest keeps of a validated recording. -/
def RecordingValidationInput.recorded (input : RecordingValidationInput) (validated : ValidatedRecording) :
    RecordingValidationInput :=
  { input with terminal := { input.terminal with
      claimedIntegrity := validated.integrity
      counters := { input.terminal.counters with
        events := validated.stream.records
        bytes := validated.stream.physicalBytes } } }

/-- A stream without a partial line has all its bytes in whole lines. -/
theorem physicalBytes_eq_completeBytes {decode : List UInt8 → Except String EventEnvelope}
    {sha256 : List UInt8 → String} {file : EventFile} {registry : EventContractRegistry}
    {spec : EventValidationSpec} {anchor : Option ObservationStartFacts} {observationClasses : List String}
    {report : EventStreamReport}
    (h : validateEventStreamAtStart decode sha256 file registry spec anchor observationClasses = .ok report)
    (hwhole : report.completeness ≠ .partialFinalLine) : report.physicalBytes = report.completeBytes := by
  unfold validateEventStreamAtStart at h
  obtain ⟨rules, hrules, h⟩ := bind_eq_ok.mp h
  obtain ⟨⟨st, partialLine, r⟩, htraverse, h⟩ := bind_eq_ok.mp h
  obtain ⟨-, h⟩ := require_bind_eq_ok.mp h
  obtain rfl := Except.ok.inj h
  obtain ⟨lines, events, rest, hinv, hconsumed, -, hrest⟩ :=
    traverse_inv (streamRules_eq_ok hrules).keyed htraverse StreamInv.start
  rw [List.nil_append, List.nil_append] at hinv
  have hunfinished : partialLine = false := by
    cases partialLine with
    | false => rfl
    | true => exact absurd rfl hwhole
  have hphysical := hconsumed.physicalBytes
  rw [hrest hunfinished, List.append_nil] at hphysical
  show r.physicalBytes = st.completeBytes
  rw [hphysical, hinv.completeBytes]
  exact Nat.zero_add _

section recorded
variable {input : RecordingValidationInput} {validated : ValidatedRecording} {stream : EventStreamReport}

theorem checkClassFacts_recorded (facts : List EventClassTerminalFacts) (reported : List String) (dropped : ℕ) :
    (input.recorded validated).checkClassFacts stream facts reported dropped =
      input.checkClassFacts stream facts reported dropped := by
  induction facts generalizing reported dropped with
  | nil => rfl
  | cons first rest ih =>
    simp only [RecordingValidationInput.checkClassFacts, ih]
    rfl

theorem checkReportedClasses_recorded :
    (input.recorded validated).checkReportedClasses stream = input.checkReportedClasses stream := by
  rw [RecordingValidationInput.checkReportedClasses, RecordingValidationInput.checkReportedClasses]
  show (if input.terminal.eventClasses = [] then _ else _) = _
  split_ifs with hempty
  · rfl
  · rw [show (input.recorded validated).terminal.eventClasses = input.terminal.eventClasses from rfl,
      checkClassFacts_recorded]
    rfl

theorem countersMatch_recorded (hbytes : stream.physicalBytes = stream.completeBytes)
    (hframes : input.terminal.counters.frames = input.actualFrames) (hstream : validated.stream = stream) :
    (input.recorded validated).countersMatch stream = true := by
  subst hstream
  simp only [RecordingValidationInput.countersMatch, Bool.and_eq_true, beq_iff_eq]
  exact ⟨⟨rfl, hbytes⟩, hframes⟩

theorem complete_recorded {maximumEnd : ℕ} (h : input.complete stream maximumEnd = true)
    (hbytes : stream.physicalBytes = stream.completeBytes) (hstream : validated.stream = stream)
    (hintegrity : validated.integrity = .complete) :
    (input.recorded validated).complete stream maximumEnd = true := by
  simp only [RecordingValidationInput.complete, Bool.and_eq_true] at h ⊢
  obtain ⟨⟨⟨⟨⟨⟨⟨⟨⟨⟨⟨⟨⟨⟨⟨⟨h1, h2⟩, -⟩, h4⟩, h5⟩, h6⟩, h7⟩, h8⟩, h9⟩, h10⟩, hcounters⟩, h12⟩, h13⟩, h14⟩, h15⟩,
    h16⟩, h17⟩ := h
  simp only [RecordingValidationInput.countersMatch, Bool.and_eq_true, beq_iff_eq] at hcounters
  have hclaimed : (validated.integrity == .complete) = true := by rw [hintegrity]; rfl
  exact ⟨⟨⟨⟨⟨⟨⟨⟨⟨⟨⟨⟨⟨⟨⟨⟨h1, h2⟩, hclaimed⟩, h4⟩, h5⟩, h6⟩, h7⟩, h8⟩, h9⟩, h10⟩,
    countersMatch_recorded hbytes hcounters.2 hstream⟩, h12⟩, h13⟩, h14⟩, h15⟩, h16⟩, h17⟩

theorem operationOutcome_of_complete {maximumEnd : ℕ} (h : input.complete stream maximumEnd = true) :
    input.terminal.operationOutcome = .completed ∧ stream.completeness = .complete := by
  simp only [RecordingValidationInput.complete, Bool.and_eq_true, beq_iff_eq] at h
  exact ⟨h.1.1.1.1.1.1.1.1.1.1.1.1.1.1.1.1, h.1.1.1.1.1.2⟩

theorem integrity_recorded {maximumEnd : ℕ} (hstream : validated.stream = stream)
    (hintegrity : validated.integrity = input.integrity stream maximumEnd)
    (hwhole : stream.completeness ≠ .partialFinalLine → stream.physicalBytes = stream.completeBytes)
    (hclaim : input.terminal.operationOutcome = .completed → input.complete stream maximumEnd = true) :
    (input.terminal.operationOutcome = .completed →
      (input.recorded validated).complete stream maximumEnd = true) ∧
    (input.recorded validated).integrity stream maximumEnd = validated.integrity := by
  by_cases hcomplete : input.complete stream maximumEnd = true
  · have hcompleteness := (operationOutcome_of_complete hcomplete).2
    have hfound : validated.integrity = .complete := by
      rw [hintegrity, RecordingValidationInput.integrity, if_pos hcomplete]
    have hagain := complete_recorded hcomplete (hwhole (by rw [hcompleteness]; decide)) hstream hfound
    refine ⟨fun _ => hagain, ?_⟩
    rw [RecordingValidationInput.integrity, if_pos hagain, hfound]
  · -- nothing but a completed operation is complete, before and after
    have hoperation : input.terminal.operationOutcome ≠ .completed := fun h => hcomplete (hclaim h)
    have hagain : ¬ (input.recorded validated).complete stream maximumEnd = true := fun h =>
      hoperation (operationOutcome_of_complete h).1
    refine ⟨fun h => absurd h hoperation, ?_⟩
    rw [RecordingValidationInput.integrity, if_neg hagain]
    rw [RecordingValidationInput.integrity, if_neg hcomplete] at hintegrity
    split_ifs at hintegrity with hunverifiable
    · rw [if_pos, hintegrity]
      simp [RecordingValidationInput.recorded, hintegrity]
    · simp only [Bool.or_eq_true, not_or, Bool.not_eq_true, Bool.not_eq_false', beq_eq_false_iff_ne]
        at hunverifiable
      obtain ⟨⟨⟨⟨⟨hunfinished, hcounters⟩, -⟩, htruncated⟩, hgap⟩, hcleanup⟩ := hunverifiable
      simp only [RecordingValidationInput.countersMatch, Bool.and_eq_true, beq_iff_eq] at hcounters
      have hagree := countersMatch_recorded (hwhole hunfinished) hcounters.2 hstream
      have hclaimed : validated.integrity ≠ .unverifiable := by
        rw [hintegrity]
        decide
      rw [if_neg, hintegrity]
      simp only [Bool.or_eq_true, not_or, Bool.not_eq_true, Bool.not_eq_false', beq_eq_false_iff_ne]
      exact ⟨⟨⟨⟨⟨hunfinished, hagree⟩, hclaimed⟩, htruncated⟩, hgap⟩, hcleanup⟩

end recorded

/-- Validating the file against the recorded facts gives the same stream and the same integrity. -/
theorem validateRecordingFile_recorded {decode : List UInt8 → Except String EventEnvelope}
    {sha256 : List UInt8 → String} {file : EventFile} {registry : EventContractRegistry}
    {input : RecordingValidationInput} {validated : ValidatedRecording}
    (h : validateRecordingFile decode sha256 file registry input = .ok validated) :
    validateRecordingFile decode sha256 file registry (input.recorded validated) =
      .ok ⟨validated.stream, validated.integrity, (input.recorded validated).terminal⟩ := by
  unfold validateRecordingFile at h
  obtain ⟨maximumEnd, hscope, h⟩ := bind_eq_ok.mp h
  obtain ⟨u, hidentities, h⟩ := bind_eq_ok.mp h
  obtain ⟨u', hstart, h⟩ := bind_eq_ok.mp h
  obtain ⟨stream, hvalid, h⟩ := bind_eq_ok.mp h
  obtain ⟨hstop, h⟩ := require_bind_eq_ok.mp h
  obtain ⟨u'', hclasses, h⟩ := bind_eq_ok.mp h
  obtain ⟨hclaim, h⟩ := require_bind_eq_ok.mp h
  obtain rfl := Except.ok.inj h
  have hwhole := physicalBytes_eq_completeBytes (mapError_eq_ok.mp hvalid)
  have hclaim : input.terminal.operationOutcome = .completed → input.complete stream maximumEnd = true := by
    intro hoperation
    by_contra hcomplete
    exact hclaim ⟨hoperation, by simpa using hcomplete⟩
  generalize hvalidated : ValidatedRecording.mk stream (input.integrity stream maximumEnd) input.terminal = validated
  have hstream : validated.stream = stream := by rw [← hvalidated]
  have hfound : validated.integrity = input.integrity stream maximumEnd := by rw [← hvalidated]
  obtain ⟨hcompleted, hintegrity⟩ := integrity_recorded hstream hfound hwhole hclaim
  have hscope' : (input.recorded validated).checkScope = .ok maximumEnd := hscope
  have hstart' : (input.recorded validated).checkObservationStart = .ok u' := hstart
  have hclasses' : (input.recorded validated).checkReportedClasses stream = .ok u'' := by
    rw [checkReportedClasses_recorded]
    exact hclasses
  unfold validateRecordingFile
  simp only [bind_eq_ok, require_eq_ok, exists_const]
  refine ⟨maximumEnd, hscope', u, hidentities, u', hstart', stream, hvalid, hstop, u'', hclasses', ?_, ?_⟩
  · rintro ⟨hoperation, hcomplete⟩
    rw [hcompleted hoperation] at hcomplete
    cases hcomplete
  · rw [hintegrity, hstream]
    rfl

end Emucap.Bundle
