import Emucap.Bundle.CompleteRecording
import Emucap.Bundle.EventAcceptance

/-!
# The order of frame events

In an accepted stream a frame begins before it completes, and completes before the next begins, unless
`frame_completed` is armed from an earlier frame than `frame_boundary`. Every event is checked against two counters
(`FramesInStep`).
-/

namespace Emucap.Bundle

open Emucap.Lib

/-! ## The order -/

def FrameEventAt (events : List EventEnvelope) (eventClass : String) (frame i : ℕ) : Prop :=
  ∃ event, events[i]? = some event ∧ event.eventClass = eventClass ∧ event.frame = frame

structure FrameOrdered (events : List EventEnvelope) : Prop where
  /-- A frame begins before it completes. -/
  begins : ∀ frame i j, FrameEventAt events "frame_boundary" frame i →
    FrameEventAt events "frame_completed" frame j → i < j
  /-- A frame completes before the next one begins. -/
  completes : ∀ frame i j, FrameEventAt events "frame_completed" frame i →
    FrameEventAt events "frame_boundary" (frame + 1) j → i < j

/-- The first frame of the interval a class is armed in. -/
def EventValidationSpec.classStart (spec : EventValidationSpec) (eventClass : String) : ℕ :=
  ((OrdMap.find? eventClass spec.classIntervals).map FrameInterval.fStart).getD spec.fStart

/-- The frame before the interval of `frame_boundary` completes after that interval has begun. -/
def LateCompletion (spec : EventValidationSpec) (events : List EventEnvelope) : Prop :=
  ∃ before after, events = before ++ after ∧ classFrames "frame_boundary" before ≠ [] ∧
    ∃ event ∈ after, event.eventClass = "frame_completed" ∧
      event.frame + 1 = spec.classStart "frame_boundary"

/-! ## What the counters say of one event -/

namespace StreamRules

variable {rules : StreamRules} {line : List UInt8} {event : EventEnvelope} {st st' : StreamState}

theorem interval_fStart (rules : StreamRules) (eventClass : String) :
    (rules.interval eventClass).fStart = rules.spec.classStart eventClass := by
  unfold interval EventValidationSpec.classStart
  cases OrdMap.find? eventClass rules.spec.classIntervals with
  | none => rfl
  | some interval => rfl

/-- What a frame event is checked against. -/
structure FrameChecked (rules : StreamRules) (event : EventEnvelope) (nextBoundary nextCompleted : ℕ) : Prop where
  boundary : event.eventClass = "frame_boundary" → event.frame = nextBoundary ∧
    (rules.selects "frame_completed" = true → rules.spec.classStart "frame_boundary" < event.frame →
      event.frame ≤ nextCompleted)
  completed : event.eventClass = "frame_completed" → event.frame = nextCompleted ∧ event.frame < nextBoundary

theorem checkFrameOrder_checked {contract : EventContract} (hid : contract.id = event.eventClass)
    (h : rules.checkFrameOrder contract event st = .ok st') :
    rules.FrameChecked event st.nextFrameBoundary st.nextFrameCompleted := by
  unfold checkFrameOrder at h
  rw [hid] at h
  by_cases hboundary : event.eventClass = "frame_boundary"
  · rw [if_pos hboundary] at h
    simp only [require_bind_eq_ok, hboundary, interval_fStart] at h
    obtain ⟨hframe, horder, -⟩ := h
    refine ⟨fun _ => ⟨hframe, fun hselects hstart => ?_⟩, fun hcompleted => ?_⟩
    · by_contra hlate
      exact horder ⟨hselects, hstart, by omega⟩
    · rw [hboundary] at hcompleted
      exact absurd hcompleted (by decide)
  · rw [if_neg hboundary] at h
    by_cases hcompleted : event.eventClass = "frame_completed"
    · rw [if_pos hcompleted] at h
      simp only [require_bind_eq_ok] at h
      exact ⟨fun hclass => absurd hclass hboundary, fun _ => ⟨h.1, h.2.1⟩⟩
    · exact ⟨fun hclass => absurd hclass hboundary, fun hclass => absurd hclass hcompleted⟩

theorem acceptEvent_checked (hkeyed : rules.Keyed) (h : rules.acceptEvent line event st = .ok st') :
    rules.FrameChecked event st.nextFrameBoundary st.nextFrameCompleted := by
  unfold acceptEvent at h
  simp only [bind_eq_ok] at h
  obtain ⟨matched, -, st₁, hline, contract, hcontract, st₂, hclocks, u, -, st₃, horder, -⟩ := h
  have hid := hkeyed _ _ (checkContract_eq_ok hcontract).selected
  have hchecked := checkFrameOrder_checked hid horder
  rw [(checkClocks_eq_ok hclocks).2, (countLine_eq_ok hline).2] at hchecked
  exact hchecked

end StreamRules

/-! ## All events -/

section run
variable {decode : List UInt8 → Except String EventEnvelope} {rules : StreamRules}

theorem acceptAll_inv (hkeyed : rules.Keyed) {st st' : StreamState} {lines more : List (List UInt8)}
    {events later : List EventEnvelope} (h : acceptAll decode rules st more = .ok st')
    (hwhole : ∀ line ∈ more, WholeLine line) (hdecoded : more.map decode = later.map Except.ok)
    (hinv : StreamInv decode rules st lines events) :
    StreamInv decode rules st' (lines ++ more) (events ++ later) := by
  induction more generalizing st lines events later with
  | nil =>
    obtain rfl := Except.ok.inj h
    obtain rfl : later = [] := by simpa using hdecoded.symm
    simpa using hinv
  | cons line more ih =>
    obtain ⟨hstop, event, next, hevent, hnext, hrest⟩ := acceptAll_cons.mp h
    cases later with
    | nil => simp at hdecoded
    | cons event' later =>
      simp only [List.map_cons, List.cons.injEq, hevent, Except.ok.injEq] at hdecoded
      obtain ⟨rfl, hdecoded⟩ := hdecoded
      have hstep := hinv.accept hstop (hwhole line (by simp)) hevent
        (StreamRules.acceptEvent_eq_ok hkeyed hnext)
      have hall := ih hrest (fun l hl => hwhole l (by simp [hl])) hdecoded hstep
      simpa using hall

def FramesInStep (rules : StreamRules) (events : List EventEnvelope) : Prop :=
  ∀ before event after, events = before ++ event :: after →
    rules.FrameChecked event
      (rules.spec.classStart "frame_boundary" + (classFrames "frame_boundary" before).length)
      (rules.spec.classStart "frame_completed" + (classFrames "frame_completed" before).length)

theorem FrameRun.next_eq {start next records : ℕ} {frames : List ℕ} (h : FrameRun start frames next records) :
    next = start + frames.length := by
  rw [h.frames, List.length_range', h.next]

theorem acceptAll_inStep (hkeyed : rules.Keyed) {st : StreamState} {lines : List (List UInt8)}
    {events : List EventEnvelope} (h : acceptAll decode rules rules.start lines = .ok st)
    (hwhole : ∀ line ∈ lines, WholeLine line) (hdecoded : lines.map decode = events.map Except.ok) :
    FramesInStep rules events := by
  rintro before event after rfl
  rw [List.map_append, List.map_cons] at hdecoded
  obtain ⟨front, back, rfl, hfront, hback⟩ := List.map_eq_append_iff.mp hdecoded
  obtain ⟨line, rest, rfl, hline, -⟩ := List.map_eq_cons_iff.mp hback
  obtain ⟨mid, hmid, hmore⟩ := acceptAll_append.mp h
  obtain ⟨-, event', next, hevent, hnext, -⟩ := acceptAll_cons.mp hmore
  rw [hline] at hevent
  obtain rfl := Except.ok.inj hevent
  have hinv := acceptAll_inv hkeyed hmid (fun l hl => hwhole l (by simp [hl])) hfront StreamInv.start
  have hchecked := StreamRules.acceptEvent_checked hkeyed hnext
  rw [hinv.boundary.next_eq, hinv.completed.next_eq, StreamRules.interval_fStart,
    StreamRules.interval_fStart] at hchecked
  exact hchecked

end run

/-! ## Counting -/

section count
variable {events : List EventEnvelope} {eventClass : String} {frame i : ℕ}

theorem FrameEventAt.split (h : FrameEventAt events eventClass frame i) :
    ∃ event after, events = events.take i ++ event :: after ∧ event.eventClass = eventClass ∧
      event.frame = frame := by
  obtain ⟨event, hget, hclass, hframe⟩ := h
  obtain ⟨hi, rfl⟩ := List.getElem?_eq_some_iff.mp hget
  exact ⟨events[i], events.drop (i + 1), by rw [← List.drop_eq_getElem_cons hi, List.take_append_drop], hclass, hframe⟩

theorem length_classFrames_take_mono {j : ℕ} (h : i ≤ j) :
    (classFrames eventClass (events.take i)).length ≤ (classFrames eventClass (events.take j)).length := by
  unfold classFrames
  rw [List.length_map, List.length_map]
  exact ((List.take_sublist_take_left h).filter _).length_le

theorem classFrames_ne_nil {event : EventEnvelope} (hmem : event ∈ events) :
    classFrames event.eventClass events ≠ [] := by
  have hin : event.frame ∈ classFrames event.eventClass events :=
    List.mem_map.mpr ⟨event, List.mem_filter.mpr ⟨hmem, by simp⟩, rfl⟩
  intro hnil
  rw [hnil] at hin
  exact absurd hin List.not_mem_nil

theorem FrameEventAt.ne {eventClass' : String} {frame' j : ℕ} (h : FrameEventAt events eventClass frame i)
    (h' : FrameEventAt events eventClass' frame' j) (hclass : eventClass ≠ eventClass') : i ≠ j := by
  rintro rfl
  obtain ⟨event, hget, rfl, -⟩ := h
  obtain ⟨event', hget', rfl, -⟩ := h'
  rw [hget] at hget'
  exact hclass (by rw [Option.some.inj hget'])

end count

section order
variable {rules : StreamRules} {events : List EventEnvelope}

theorem FramesInStep.begins (h : FramesInStep rules events) {frame i j : ℕ}
    (hi : FrameEventAt events "frame_boundary" frame i) (hj : FrameEventAt events "frame_completed" frame j) :
    i < j := by
  by_contra hle
  obtain ⟨begun, rest, hbegun, hclass, hframe⟩ := hi.split
  obtain ⟨done, rest', hdone, hclass', hframe'⟩ := hj.split
  have hbegins := ((h _ _ _ hbegun).boundary hclass).1
  have hcompletes := ((h _ _ _ hdone).completed hclass').2
  have hmono : (classFrames "frame_boundary" (events.take j)).length ≤ (classFrames "frame_boundary" (events.take i)).length :=
    length_classFrames_take_mono (Nat.le_of_not_lt hle)
  omega

theorem FramesInStep.completes (h : FramesInStep rules events) (hselects : rules.selects "frame_completed" = true)
    {frame i j : ℕ} (hi : FrameEventAt events "frame_completed" frame i)
    (hj : FrameEventAt events "frame_boundary" (frame + 1) j)
    (hstart : frame + 1 ≠ rules.spec.classStart "frame_boundary") : i < j := by
  by_contra hle
  obtain ⟨done, rest, hdone, hclass, hframe⟩ := hi.split
  obtain ⟨begun, rest', hbegun, hclass', hframe'⟩ := hj.split
  obtain ⟨hnext, horder⟩ := (h _ _ _ hbegun).boundary hclass'
  have hcompletes := ((h _ _ _ hdone).completed hclass).1
  have hbehind := horder hselects (by omega)
  have hmono : (classFrames "frame_completed" (events.take j)).length ≤ (classFrames "frame_completed" (events.take i)).length :=
    length_classFrames_take_mono (Nat.le_of_not_lt hle)
  omega

theorem FramesInStep.first_boundary (h : FramesInStep rules events) {before after : List EventEnvelope}
    (hsplit : events = before ++ after) (hbefore : classFrames "frame_boundary" before ≠ []) :
    ∃ j < before.length, FrameEventAt events "frame_boundary" (rules.spec.classStart "frame_boundary") j := by
  have hfound : (before.find? fun event => event.eventClass == "frame_boundary").isSome := by
    rw [List.find?_isSome]
    obtain ⟨event, hevent⟩ := List.exists_mem_of_ne_nil _ (mt (congrArg (List.map EventEnvelope.frame)) hbefore)
    exact ⟨event, List.mem_filter.mp hevent⟩
  obtain ⟨event, hevent⟩ := Option.isSome_iff_exists.mp hfound
  obtain ⟨hclass, front, back, rfl, hfront⟩ := List.find?_eq_some_iff_append.mp hevent
  rw [beq_iff_eq] at hclass
  have hnone : classFrames "frame_boundary" front = [] := by
    rw [classFrames, List.filter_eq_nil_iff.mpr fun e he => by simpa using hfront e he, List.map_nil]
  rw [List.append_assoc] at hsplit
  have hframe := ((h front event (back ++ after) (by simpa using hsplit)).boundary hclass).1
  rw [hnone, List.length_nil, Nat.add_zero] at hframe
  refine ⟨front.length, by simp, event, ?_, hclass, hframe⟩
  rw [hsplit]
  simp

theorem FramesInStep.ordered_iff (h : FramesInStep rules events)
    (hselects : rules.selects "frame_completed" = true) :
    FrameOrdered events ↔ ¬ LateCompletion rules.spec events := by
  constructor
  · rintro hordered ⟨before, after, hsplit, hbefore, event, hevent, hclass, hframe⟩
    obtain ⟨j, hj, hboundary⟩ := h.first_boundary hsplit hbefore
    obtain ⟨k, hk⟩ := List.mem_iff_getElem?.mp hevent
    have hcompleted : FrameEventAt events "frame_completed" event.frame (before.length + k) := by
      refine ⟨event, ?_, hclass, rfl⟩
      rw [hsplit, List.getElem?_append_right (Nat.le_add_right _ _), Nat.add_sub_cancel_left, hk]
    rw [← hframe] at hboundary
    have hlt := hordered.completes _ _ _ hcompleted hboundary
    omega
  · intro hnot
    refine ⟨fun frame i j hi hj => h.begins hi hj, fun frame i j hi hj => ?_⟩
    by_cases hstart : frame + 1 = rules.spec.classStart "frame_boundary"
    · by_contra hle
      have hne := hi.ne hj (by decide)
      obtain ⟨begun, hbegun, hclass, -⟩ := hj
      obtain ⟨done, hdone, hclass', hframe'⟩ := hi
      refine hnot ⟨events.take i, events.drop i, (List.take_append_drop i events).symm, ?_, done, ?_, hclass', ?_⟩
      · rw [← hclass]
        exact classFrames_ne_nil (List.mem_iff_getElem?.mpr ⟨j, by rw [List.getElem?_take_of_lt (by omega), hbegun]⟩)
      · exact List.mem_iff_getElem?.mpr ⟨0, by rw [List.getElem?_drop, Nat.add_zero, hdone]⟩
      · rw [hframe', hstart]
    · exact h.completes hselects hi hj hstart

end order

/-! ## Accepted streams -/

/-- The classes of both kinds of frame events are requested. -/
def EventValidationSpec.RequestsFrames (spec : EventValidationSpec) : Prop :=
  "frame_boundary" ∈ spec.eventClasses.map EventClassIdentity.id ∧
    "frame_completed" ∈ spec.eventClasses.map EventClassIdentity.id

/-- The frame events of an accepted stream are in order if and only if no frame before the interval of
`frame_boundary` completes after that interval has begun. -/
theorem frame_order_iff {decode : List UInt8 → Except String EventEnvelope} {sha256 : List UInt8 → String}
    {file : EventFile} {registry : EventContractRegistry} {spec : EventValidationSpec}
    {anchor : Option ObservationStartFacts} {observationClasses : List String} {report : EventStreamReport}
    {lines : List (List UInt8)} {rest : List UInt8} {events : List EventEnvelope}
    (hrequests : spec.RequestsFrames)
    (h : validateEventStreamAtStart decode sha256 file registry spec anchor observationClasses = .ok report)
    (hlines : ∀ line ∈ lines, WholeLine line) (hrest : newline ∉ rest) (hbytes : file.bytes = lines.flatten ++ rest)
    (hdecoded : lines.map decode = events.map Except.ok) :
    FrameOrdered events ↔ ¬ LateCompletion spec events := by
  obtain ⟨rules, lines', rest', st, haccepted⟩ := exists_acceptedFile h
  obtain ⟨rfl, -⟩ := lines_unique hlines hrest (fun line hline => (haccepted.fit.whole line hline).1)
    haccepted.fit.rest.1 (hbytes.symm.trans haccepted.bytes)
  have hfor := streamRules_eq_ok haccepted.ruled
  obtain ⟨hspec, -, -⟩ := streamRules_spec haccepted.ruled
  have hselects := (hfor.selects_iff "frame_completed").mpr hrequests.2
  have hstep := acceptAll_inStep hfor.keyed haccepted.accepted hlines hdecoded
  rw [hstep.ordered_iff hselects, hspec]

/-! ## A frame that completes after the next one has begun -/

def frameCompletedContract : EventContract where
  id := "frame_completed"
  revision := 1
  contract := "frame_completed/v1;clock=frame:strict;frame=previous_tick;payload=empty-object;point=post-interval-pre-next-input"
  contractSha256 := "a335a785a0c109cc7edc6ecab27ff429e386c2ad2eb34769cac4f9cc47378b91"
  clockDomain := "frame"
  clockOrder := .strict
  frameRelation := .previousTick
  payloadKind := .emptyObject
  payloadFields := []

def frameRegistry : EventContractRegistry where
  revision := "844ac26bbb8dac2d4171d7d0e6392b4acc59345b5c9ca8f5031617b5d7b07e11"
  classes := [frameBoundaryContract, frameCompletedContract]
  unique := by decide
  valid := by decide

def beginningLine : List UInt8 :=
  ("\x7b\"sequence\":0,\"class\":\"frame_boundary\",\"contract_sha256\":\"498fcd52f2fa2327e0af9e9730b4314f0854a6047f57dcde16961b8a4ecb80cd\",\"clock\":\x7b\"domain\":\"frame\",\"tick\":6\x7d,\"frame\":6,\"payload\":\x7b\x7d\x7d" ++
    "\n").toUTF8.toList

def completionLine : List UInt8 :=
  ("\x7b\"sequence\":1,\"class\":\"frame_completed\",\"contract_sha256\":\"a335a785a0c109cc7edc6ecab27ff429e386c2ad2eb34769cac4f9cc47378b91\",\"clock\":\x7b\"domain\":\"frame\",\"tick\":6\x7d,\"frame\":5,\"payload\":\x7b\x7d\x7d" ++
    "\n").toUTF8.toList

def beginningEvent : EventEnvelope :=
  ⟨0, "frame_boundary", frameBoundaryContract.contractSha256, ⟨"frame", 6⟩, 6, .obj []⟩

def completionEvent : EventEnvelope :=
  ⟨1, "frame_completed", frameCompletedContract.contractSha256, ⟨"frame", 6⟩, 5, .obj []⟩

def decodeFrames (line : List UInt8) : Except String EventEnvelope :=
  if line = beginningLine then .ok beginningEvent
  else if line = completionLine then .ok completionEvent
  else .error "expected value"

def lateFile : EventFile where
  chunks := [beginningLine ++ completionLine]
  nonempty := by decide +kernel
  fault := none

def lateSpec : EventValidationSpec where
  fStart := 5
  fEnd := 8
  observationStart := 6
  classIntervals := [("frame_boundary", ⟨6, 8⟩), ("frame_completed", ⟨5, 8⟩)]
  eventClasses := [⟨"frame_boundary", frameBoundaryContract.contractSha256⟩,
    ⟨"frame_completed", frameCompletedContract.contractSha256⟩]
  eventFilters := []
  limits := ⟨2, 4, 4096, 1024, 1000, 10⟩
  stopOn := none

def lateDigest (_ : List UInt8) : String := "bb17d4e3244be7b34008be9dff65ecd4c428da4204e706d9dd79fb10101d6433"

def lateReport : EventStreamReport where
  sha256 := lateDigest []
  physicalBytes := 369
  completeBytes := 369
  records := 2
  firstSequence := some 0
  lastSequence := some 1
  frameBoundaryRecords := 1
  frameCompletedRecords := 1
  classCounts := [("frame_boundary", 1), ("frame_completed", 1)]
  stopEvent := none
  completeness := .prefixOnly

set_option maxRecDepth 4000 in
theorem late_accepted : validateEventStreamAtStart decodeFrames lateDigest lateFile frameRegistry lateSpec none
    ["frame_boundary"] = .ok lateReport := by
  unfold decodeFrames lateFile
  simp only [show beginningLine = _ from toUTF8_ascii (by decide +kernel),
    show completionLine = _ from toUTF8_ascii (by decide +kernel)]
  decide +kernel

set_option maxRecDepth 4000 in
theorem late_lines : (∀ line ∈ [beginningLine, completionLine], newline ∉ line.dropLast ∧
    line = line.dropLast ++ [newline]) ∧ completionLine ≠ beginningLine := by
  simp only [show beginningLine = _ from toUTF8_ascii (by decide +kernel),
    show completionLine = _ from toUTF8_ascii (by decide +kernel)]
  decide +kernel

theorem late_whole : ∀ line ∈ [beginningLine, completionLine], WholeLine line := fun line hline =>
  ⟨line.dropLast, late_lines.1 line hline⟩

theorem late_bytes : lateFile.bytes = [beginningLine, completionLine].flatten ++ [] := by
  simp [EventFile.bytes, lateFile]

theorem late_decoded :
    [beginningLine, completionLine].map decodeFrames = [beginningEvent, completionEvent].map Except.ok := by
  rw [List.map_cons, List.map_singleton, decodeFrames, if_pos rfl, decodeFrames, if_neg late_lines.2, if_pos rfl]
  rfl

theorem frame_order_fails :
    ¬ ∀ (decode : List UInt8 → Except String EventEnvelope) (sha256 : List UInt8 → String) (file : EventFile)
        (registry : EventContractRegistry) (spec : EventValidationSpec) (anchor : Option ObservationStartFacts)
        (observationClasses : List String) (report : EventStreamReport) (lines : List (List UInt8))
        (rest : List UInt8) (events : List EventEnvelope), spec.RequestsFrames →
      validateEventStreamAtStart decode sha256 file registry spec anchor observationClasses = .ok report →
      (∀ line ∈ lines, WholeLine line) → newline ∉ rest → file.bytes = lines.flatten ++ rest →
      lines.map decode = events.map Except.ok → FrameOrdered events := by
  intro h
  have hordered := h decodeFrames lateDigest lateFile frameRegistry lateSpec none ["frame_boundary"] lateReport
    [beginningLine, completionLine] [] [beginningEvent, completionEvent] ⟨by decide, by decide⟩ late_accepted
    late_whole (by decide) late_bytes late_decoded
  have hlt := hordered.completes 5 1 0 ⟨completionEvent, rfl, rfl, rfl⟩ ⟨beginningEvent, rfl, rfl, rfl⟩
  omega

theorem frame_order_iff_late :
    FrameOrdered [beginningEvent, completionEvent] ↔ ¬ LateCompletion lateSpec [beginningEvent, completionEvent] :=
  frame_order_iff ⟨by decide, by decide⟩ late_accepted late_whole
    (show newline ∉ [] by decide) late_bytes late_decoded

end Emucap.Bundle
