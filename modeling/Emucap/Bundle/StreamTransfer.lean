import Emucap.Bundle.CompleteRecording
import Emucap.Bundle.EventAcceptance

/-!
# Streams under another scope

Where all classes share one interval of frames, a stream that is accepted under it is accepted under another that
holds its frames and starts with it, or that starts later if the stream has no frame event.
-/

namespace Emucap.Bundle

open Emucap.Lib

/-- Every class is observed in the frames from `first` on, and before `last`. -/
structure PlainRules (rules : StreamRules) (first last : ℕ) : Prop where
  interval : ∀ eventClass, rules.interval eventClass = ⟨first, last⟩
  anchor : rules.anchor = none
  observation : rules.spec.observationStart = first

structure SameChecks (rules rules' : StreamRules) : Prop where
  selected : rules'.selected = rules.selected
  filters : rules'.filters = rules.filters
  maxEvents : rules'.spec.limits.maxEvents = rules.spec.limits.maxEvents
  stopOn : rules'.spec.stopOn = rules.spec.stopOn

namespace StreamRules

variable {rules rules' : StreamRules} {line : List UInt8} {event : EventEnvelope} {st st' next : StreamState}
  {contract : EventContract} {first last first' last' : ℕ}

def shift (st : StreamState) (boundary completed : ℕ) : StreamState :=
  { st with nextFrameBoundary := boundary, nextFrameCompleted := completed }

theorem countLine_shift (hsame : SameChecks rules rules') (h : rules.countLine line event st = .ok next)
    (b c : ℕ) : rules'.countLine line event (shift st b c) = .ok (shift next b c) := by
  unfold countLine at h ⊢
  simp only [bind_eq_ok, require_eq_ok, exists_const, orError_eq_ok, hsame.maxEvents] at h ⊢
  obtain ⟨hsequence, expected, hexpected, records, hrecords, hlimit, bytes, hbytes, h⟩ := h
  obtain rfl := Except.ok.inj h
  exact ⟨hsequence, expected, hexpected, records, hrecords, hlimit, bytes, hbytes, rfl⟩

theorem checkContract_shift (hsame : SameChecks rules rules') (hplain : PlainRules rules first last)
    (hplain' : PlainRules rules' first' last') (hlast : last ≤ last') (hframe : first' ≤ event.frame)
    (h : rules.checkContract event = .ok contract) : rules'.checkContract event = .ok contract := by
  unfold checkContract at h ⊢
  simp only [bind_eq_ok, require_eq_ok, exists_const, orError_eq_ok, hsame.selected, hplain.interval,
    hplain'.interval] at h ⊢
  obtain ⟨found, hfound, hdigest, hdomain, hscope, hrelation, h⟩ := h
  exact ⟨found, hfound, hdigest, hdomain, ⟨hframe, by omega⟩, hrelation, h⟩

theorem checkClocks_shift (h : checkClocks contract event st = .ok next) (b c : ℕ) :
    checkClocks contract event (shift st b c) = .ok (shift next b c) := by
  unfold checkClocks at h ⊢
  simp only [bind_eq_ok, require_eq_ok, exists_const] at h ⊢
  obtain ⟨hclock, hclass, h⟩ := h
  obtain rfl := Except.ok.inj h
  exact ⟨hclock, hclass, rfl⟩

theorem checkPayload_shift (hsame : SameChecks rules rules') {u : Unit}
    (h : rules.checkPayload contract event = .ok u) : rules'.checkPayload contract event = .ok u := by
  unfold checkPayload at h ⊢
  rwa [hsame.filters]

theorem stopFacts_shift (hsame : SameChecks rules rules') (occurrence : ℕ) :
    rules'.stopFacts event occurrence = rules.stopFacts event occurrence := by
  unfold stopFacts
  rw [hsame.stopOn]

theorem PlainRules.observationStarted (hplain : PlainRules rules first last) (hframe : first ≤ event.frame) :
    rules.observationStarted event = true := by
  unfold StreamRules.observationStarted
  rw [hplain.anchor, hplain.observation]
  simpa using hframe

theorem countEvent_shift (hsame : SameChecks rules rules') (hstarted : rules.observationStarted event = true)
    (hstarted' : rules'.observationStarted event = true) (h : rules.countEvent event st = .ok next) (b c : ℕ) :
    rules'.countEvent event (shift st b c) = .ok (shift next b c) := by
  unfold countEvent at h ⊢
  simp only [bind_eq_ok, hstarted, hstarted', if_true, stopFacts_shift hsame] at h ⊢
  obtain ⟨count, hcount, occurrence, hoccurrence, h⟩ := h
  obtain rfl := Except.ok.inj h
  exact ⟨count, hcount, occurrence, hoccurrence, rfl⟩

/-- The frame counters agree where the frames start together; else no frame event was seen. -/
def Shifted (first first' : ℕ) (st st' : StreamState) : Prop :=
  (first = first' ∧ st' = st) ∨
    (first < first' ∧ st.nextFrameBoundary = first ∧ st.nextFrameCompleted = first ∧
      ∃ b c, st' = shift st b c)

theorem checkFrameOrder_same (hsame : SameChecks rules rules') (hplain : PlainRules rules first last)
    (hplain' : PlainRules rules' first last') :
    rules'.checkFrameOrder contract event st = rules.checkFrameOrder contract event st := by
  simp only [checkFrameOrder, selects, hsame.selected, hplain.interval, hplain'.interval]

theorem checkFrameOrder_shift (h : rules.checkFrameOrder contract event st = .ok next)
    (hboundary : st.nextFrameBoundary = first) (hcompleted : st.nextFrameCompleted = first)
    (hframe : first < event.frame) (b c : ℕ) :
    next = st ∧ rules'.checkFrameOrder contract event (shift st b c) = .ok (shift st b c) := by
  unfold checkFrameOrder at h ⊢
  split_ifs at h ⊢ with hb hc
  · simp only [bind_eq_ok, require_eq_ok, exists_const] at h
    omega
  · simp only [bind_eq_ok, require_eq_ok, exists_const] at h
    omega
  · exact ⟨(Except.ok.inj h).symm, rfl⟩

theorem acceptEvent_shift (hsame : SameChecks rules rules') (hplain : PlainRules rules first last)
    (hplain' : PlainRules rules' first' last') (hfirst : first ≤ first') (hlast : last ≤ last')
    (hframe : first' ≤ event.frame) (hst : Shifted first first' st st')
    (h : rules.acceptEvent line event st = .ok next) :
    ∃ next', rules'.acceptEvent line event st' = .ok next' ∧ Shifted first first' next next' := by
  have hstarted := PlainRules.observationStarted hplain (hfirst.trans hframe)
  have hstarted' := PlainRules.observationStarted hplain' hframe
  unfold acceptEvent at h ⊢
  simp only [bind_eq_ok, checkAnchor, hplain.anchor, hplain'.anchor] at h ⊢
  obtain ⟨matched, hmatched, st₁, hline, contract, hcontract, st₂, hclocks, u, hpayload, st₃, horder, st₄, hcount,
    lineNumber, hlineNumber, h⟩ := h
  obtain rfl := Except.ok.inj hmatched
  obtain rfl := Except.ok.inj h
  have hline' := countLine_shift hsame hline
  have hcontract' := checkContract_shift hsame hplain hplain' hlast hframe hcontract
  have hclocks' := checkClocks_shift hclocks
  have hpayload' := checkPayload_shift hsame hpayload
  obtain ⟨-, rfl⟩ := countLine_eq_ok hline
  obtain ⟨-, rfl⟩ := checkClocks_eq_ok hclocks
  have hst₄ := (countEvent_eq_ok hcount).2
  have hboundary₄ : st₄.nextFrameBoundary = st₃.nextFrameBoundary := by rw [hst₄]
  have hcompleted₄ : st₄.nextFrameCompleted = st₃.nextFrameCompleted := by rw [hst₄]
  rcases hst with ⟨rfl, rfl⟩ | ⟨hlt, hboundary, hcompleted, b, c, rfl⟩
  · have horder' := (checkFrameOrder_same hsame hplain hplain').trans horder
    have hcount' : rules'.countEvent event st₃ = .ok st₄ := by
      have hshifted := countEvent_shift hsame hstarted hstarted' hcount st₃.nextFrameBoundary st₃.nextFrameCompleted
      have hkeep : shift st₄ st₃.nextFrameBoundary st₃.nextFrameCompleted = st₄ := by
        rw [← hboundary₄, ← hcompleted₄]
        rfl
      rw [hkeep] at hshifted
      exact hshifted
    exact ⟨_, ⟨_, rfl, _, hline' st'.nextFrameBoundary st'.nextFrameCompleted, _, hcontract', _,
      hclocks' st'.nextFrameBoundary st'.nextFrameCompleted, _, hpayload', _, horder', _, hcount',
      lineNumber, hlineNumber, rfl⟩, .inl ⟨rfl, rfl⟩⟩
  · have hlater : first < event.frame := by omega
    obtain ⟨hst₃, horder'⟩ := @checkFrameOrder_shift rules rules' event _ st₃ contract first horder hboundary
      hcompleted hlater b c
    subst hst₃
    exact ⟨_, ⟨_, rfl, _, hline' b c, _, hcontract', _, hclocks' b c, _, hpayload', _, horder', _,
      countEvent_shift hsame hstarted hstarted' hcount b c, lineNumber, hlineNumber, rfl⟩,
      .inr ⟨hlt, hboundary₄.trans hboundary, hcompleted₄.trans hcompleted, b, c, rfl⟩⟩

end StreamRules

section streams
variable {decode : List UInt8 → Except String EventEnvelope} {rules rules' : StreamRules} {st st' next : StreamState}
  {lines : List (List UInt8)} {events : List EventEnvelope} {first last first' last' : ℕ}

theorem acceptAll_shift (hsame : SameChecks rules rules') (hplain : PlainRules rules first last)
    (hplain' : PlainRules rules' first' last') (hfirst : first ≤ first') (hlast : last ≤ last')
    (hdecoded : lines.map decode = events.map Except.ok) (hframes : ∀ event ∈ events, first' ≤ event.frame)
    (hst : StreamRules.Shifted first first' st st') (h : acceptAll decode rules st lines = .ok next) :
    ∃ next', acceptAll decode rules' st' lines = .ok next' ∧ StreamRules.Shifted first first' next next' := by
  induction lines generalizing st st' events with
  | nil =>
    obtain rfl := Except.ok.inj h
    exact ⟨st', rfl, hst⟩
  | cons line lines ih =>
    obtain ⟨hstop, event, mid, hevent, hmid, hrest⟩ := acceptAll_cons.mp h
    cases events with
    | nil => cases hdecoded
    | cons event' events =>
      rw [List.map_cons, List.map_cons, List.cons.injEq, hevent] at hdecoded
      obtain ⟨heq, hdecoded⟩ := hdecoded
      obtain rfl := Except.ok.inj heq
      obtain ⟨mid', hmid', hshifted⟩ := StreamRules.acceptEvent_shift hsame hplain hplain' hfirst hlast
        (hframes event List.mem_cons_self) hst hmid
      obtain ⟨next', hnext', hshifted'⟩ := ih hdecoded
        (fun event hmem => hframes event (List.mem_cons_of_mem _ hmem)) hshifted hrest
      have hstop' : st'.stopEvent = none := by
        rcases hst with ⟨-, rfl⟩ | ⟨-, -, -, b, c, rfl⟩
        · exact hstop
        · exact hstop
      exact ⟨next', acceptAll_cons.mpr ⟨hstop', event, mid', hevent, hmid', hnext'⟩, hshifted'⟩

theorem acceptAll_frames (hplain : PlainRules rules first last) (h : acceptAll decode rules st lines = .ok next)
    (hdecoded : lines.map decode = events.map Except.ok) :
    ∀ event ∈ events, first ≤ event.frame ∧ event.frame < last := by
  induction lines generalizing st events with
  | nil =>
    cases events with
    | nil => exact fun _ hmem => (nomatch hmem)
    | cons event events => cases hdecoded
  | cons line lines ih =>
    obtain ⟨-, event, mid, hevent, hmid, hrest⟩ := acceptAll_cons.mp h
    cases events with
    | nil => cases hdecoded
    | cons event' events =>
      rw [List.map_cons, List.map_cons, List.cons.injEq, hevent] at hdecoded
      obtain rfl : event = event' := Except.ok.inj hdecoded.1
      refine List.forall_mem_cons.mpr ⟨?_, ih hrest hdecoded.2⟩
      simp only [StreamRules.acceptEvent, bind_eq_ok] at hmid
      obtain ⟨_, _, _, _, contract, hcontract, _⟩ := hmid
      have hscope := (StreamRules.checkContract_eq_ok hcontract).scope
      rwa [hplain.interval] at hscope

/-! ## The stop event -/

def classCount (eventClass : String) (events : List EventEnvelope) : ℕ :=
  (events.filter fun event => event.eventClass == eventClass).length

/-- The requested occurrence is not among the events. -/
def StopAhead (stopOn : Option EventStopCondition) (events : List EventEnvelope) : Prop :=
  ∀ stop ∈ stopOn, classCount stop.eventClass events < stop.occurrence

structure StopInv (rules : StreamRules) (events : List EventEnvelope) (st : StreamState) : Prop where
  counts : ∀ eventClass, (OrdMap.find? eventClass st.observationClassCounts).getD 0 = classCount eventClass events
  stop : st.stopEvent = none ↔ StopAhead rules.spec.stopOn events

theorem acceptEvent_counts {line : List UInt8} {event : EventEnvelope}
    (hstarted : rules.observationStarted event = true) (h : rules.acceptEvent line event st = .ok next) :
    next.observationClassCounts = OrdMap.insert event.eventClass
        ((OrdMap.find? event.eventClass st.observationClassCounts).getD 0 + 1) st.observationClassCounts ∧
      next.stopEvent = (rules.stopFacts event
        ((OrdMap.find? event.eventClass st.observationClassCounts).getD 0 + 1)).or st.stopEvent := by
  simp only [StreamRules.acceptEvent, bind_eq_ok] at h
  obtain ⟨matched, -, st₁, hline, contract, -, st₂, hclocks, u, -, st₃, horder, st₄, hcount, lineNumber, -, h⟩ := h
  obtain rfl := Except.ok.inj h
  obtain ⟨-, rfl⟩ := StreamRules.countLine_eq_ok hline
  obtain ⟨-, rfl⟩ := StreamRules.checkClocks_eq_ok hclocks
  obtain ⟨-, -, hst₃⟩ := StreamRules.checkFrameOrder_eq_ok horder
  have hcounts : st₃.observationClassCounts = st.observationClassCounts := by rw [hst₃]
  have hstop : st₃.stopEvent = st.stopEvent := by rw [hst₃]
  simp only [StreamRules.countEvent, bind_eq_ok, hstarted, if_true] at hcount
  obtain ⟨count, -, occurrence, hoccurrence, hst₄⟩ := hcount
  obtain rfl := Except.ok.inj hst₄
  rw [StreamRules.nextU64_eq_ok hoccurrence]
  simp only [hcounts, hstop, and_self]

theorem StopInv.accept {line : List UInt8} {event : EventEnvelope} (hinv : StopInv rules events st)
    (hstop : st.stopEvent = none) (hstarted : rules.observationStarted event = true)
    (h : rules.acceptEvent line event st = .ok next) : StopInv rules (events ++ [event]) next := by
  obtain ⟨hcounts, hnext⟩ := acceptEvent_counts hstarted h
  have hcount : ∀ eventClass, classCount eventClass (events ++ [event]) =
      classCount eventClass events + if event.eventClass = eventClass then 1 else 0 := by
    intro eventClass
    unfold classCount
    rw [List.filter_append, List.length_append]
    by_cases hclass : event.eventClass = eventClass <;> simp [hclass]
  have hahead := hinv.stop.mp hstop
  refine ⟨fun eventClass => ?_, ?_⟩
  · rw [hcounts, OrdMap.find?_insert, hcount]
    by_cases hclass : event.eventClass = eventClass
    · subst hclass
      simp [hinv.counts]
    · rw [if_neg (Ne.symm hclass), if_neg hclass, hinv.counts]
      rfl
  · rw [hnext, hstop, hinv.counts, Option.or_none]
    cases hon : rules.spec.stopOn with
    | none => simp [StreamRules.stopFacts, StopAhead, hon]
    | some stop =>
      rw [hon] at hahead
      have hbefore := hahead stop rfl
      have hfacts : rules.stopFacts event (classCount event.eventClass events + 1) = none ↔
          (stop.eventClass = event.eventClass → stop.occurrence ≠ classCount event.eventClass events + 1) := by
        simp [StreamRules.stopFacts, hon]
      have hafter : StopAhead (some stop) (events ++ [event]) ↔
          (classCount stop.eventClass events + if event.eventClass = stop.eventClass then 1 else 0) <
            stop.occurrence := by
        simp [StopAhead, hcount]
      rw [hfacts, hafter]
      by_cases hclass : stop.eventClass = event.eventClass
      · rw [hclass, if_pos rfl]
        rw [hclass] at hbefore
        constructor
        · intro hne
          have := hne rfl
          omega
        · intro hlt _
          omega
      · rw [if_neg (Ne.symm hclass)]
        exact ⟨fun _ => hbefore, fun _ heq => absurd heq hclass⟩

theorem acceptAll_stop (hplain : PlainRules rules first last) (hinv : StopInv rules events st)
    {more : List EventEnvelope} (hdecoded : lines.map decode = more.map Except.ok)
    (h : acceptAll decode rules st lines = .ok next) : StopInv rules (events ++ more) next := by
  induction lines generalizing st events more with
  | nil =>
    obtain rfl := Except.ok.inj h
    cases more with
    | nil => simpa using hinv
    | cons event more => cases hdecoded
  | cons line lines ih =>
    cases more with
    | nil => cases hdecoded
    | cons event more =>
      rw [List.map_cons, List.map_cons, List.cons.injEq] at hdecoded
      obtain ⟨hstop, event', mid, hevent, hmid, hrest⟩ := acceptAll_cons.mp h
      obtain rfl : event' = event := Except.ok.inj (hevent.symm.trans hdecoded.1)
      have hall : (line :: lines).map decode = (event' :: more).map Except.ok := by
        rw [List.map_cons, List.map_cons, hevent, hdecoded.2]
      have hframe := (acceptAll_frames hplain h hall event' List.mem_cons_self).1
      have hnext := hinv.accept hstop (StreamRules.PlainRules.observationStarted hplain hframe) hmid
      have hall := ih hnext hdecoded.2 hrest
      rwa [List.append_assoc, List.singleton_append] at hall

theorem StopInv.start (hoccurrence : ∀ stop ∈ rules.spec.stopOn, stop.occurrence ≠ 0) :
    StopInv rules [] rules.start := by
  refine ⟨fun _ => rfl, ⟨fun _ stop hstop => ?_, fun _ => rfl⟩⟩
  have hpos := hoccurrence stop hstop
  show 0 < stop.occurrence
  omega

end streams

end Emucap.Bundle
