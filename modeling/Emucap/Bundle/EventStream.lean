import Emucap.Bundle.Event

/-!
# What an accepted stream is

The invariant of the loop over the lines (`StreamInv`): the state of the loop says what the events read so far
are. One event moves the state as `Accepted` says; `traverse_inv` is the induction over the whole file.
-/

namespace Emucap.Bundle

open Emucap.Lib

/-- A line with its newline at the end and nowhere else. -/
def WholeLine (line : List UInt8) : Prop := ∃ text, newline ∉ text ∧ line = text ++ [newline]

/-- The frames of the events of one class, in the order of the stream. -/
def classFrames (eventClass : String) (events : List EventEnvelope) : List ℕ :=
  (events.filter fun event => event.eventClass == eventClass).map EventEnvelope.frame

def TicksOrdered (events : List EventEnvelope) : Prop :=
  events.Pairwise fun a b => a.clock.domain = b.clock.domain → a.clock.tick ≤ b.clock.tick

def EventEnvelope.stopFacts (event : EventEnvelope) (occurrence : ℕ) : EventStopFacts :=
  ⟨event.sequence, event.eventClass, event.clock.domain, event.clock.tick, event.frame, occurrence⟩

/-! ## One event -/

namespace StreamRules

variable {rules : StreamRules} {line : List UInt8} {event : EventEnvelope} {st st' : StreamState}
  {contract : EventContract}

structure ContractMet (rules : StreamRules) (event : EventEnvelope) (contract : EventContract) : Prop where
  selected : OrdMap.find? event.eventClass rules.selected = some contract
  digest : event.contractSha256 = contract.contractSha256
  domain : event.clock.domain = contract.clockDomain
  scope : (rules.interval event.eventClass).fStart ≤ event.frame ∧
    event.frame < (rules.interval event.eventClass).fEnd
  relation : relationValid contract event = true

theorem checkContract_eq_ok (h : rules.checkContract event = .ok contract) : rules.ContractMet event contract := by
  unfold checkContract at h
  simp only [orError_bind_eq_ok, require_bind_eq_ok] at h
  obtain ⟨c, hselected, hdigest, hdomain, hscope, hrelation, h⟩ := h
  obtain rfl := Except.ok.inj h
  exact ⟨hselected, hdigest, hdomain, hscope, hrelation⟩

def Filtered (rules : StreamRules) (event : EventEnvelope) : Prop :=
  ∀ filter, OrdMap.find? event.eventClass rules.filters = some filter →
    ∀ term ∈ filter.terms, termAdmits event.payload term = true

theorem checkPayload_eq_ok {u : Unit} (h : rules.checkPayload contract event = .ok u) :
    validatePayload contract event.payload = true ∧ rules.Filtered event := by
  unfold checkPayload at h
  obtain ⟨hpayload, h⟩ := require_bind_eq_ok.mp h
  have hall := require_eq_ok.mp h
  refine ⟨hpayload, fun filter hfilter term hterm => ?_⟩
  rw [hfilter] at hall
  exact List.all_eq_true.mp hall term hterm

def CounterMoves (counts : Prop) (event : EventEnvelope) (next next' records records' : ℕ) : Prop :=
  (counts ∧ event.frame = next ∧ next' = next + 1 ∧ records' = records + 1) ∨
    (¬ counts ∧ next' = next ∧ records' = records)

structure Accepted (rules : StreamRules) (line : List UInt8) (event : EventEnvelope) (st st' : StreamState) :
    Prop where
  contract : ∃ contract, rules.ContractMet event contract ∧ validatePayload contract event.payload = true
  filtered : rules.Filtered event
  sequence : event.sequence = st.expectedSequence
  expectedSequence : st'.expectedSequence = st.expectedSequence + 1
  records : st'.records = st.records + 1
  completeBytes : st'.completeBytes = st.completeBytes + line.length
  tick : ∀ previous, OrdMap.find? event.clock.domain st.clocks = some previous → previous ≤ event.clock.tick
  clocks : st'.clocks = OrdMap.insert event.clock.domain event.clock.tick st.clocks
  boundary : CounterMoves (event.eventClass = "frame_boundary") event st.nextFrameBoundary st'.nextFrameBoundary
    st.frameBoundaryRecords st'.frameBoundaryRecords
  completed : CounterMoves (event.eventClass = "frame_completed") event st.nextFrameCompleted
    st'.nextFrameCompleted st.frameCompletedRecords st'.frameCompletedRecords
  stop : st'.stopEvent = st.stopEvent ∨ ∃ occurrence, st'.stopEvent = some (event.stopFacts occurrence)

theorem nextU64_eq_ok {n m : ℕ} (h : nextU64 n = .ok m) : m = n + 1 :=
  (checkedAdd_eq_some.mp (orError_eq_ok.mp h)).2

theorem countLine_eq_ok (h : rules.countLine line event st = .ok st') :
    event.sequence = st.expectedSequence ∧
      st' = { st with
        expectedSequence := st.expectedSequence + 1, records := st.records + 1
        completeBytes := st.completeBytes + line.length
        firstSequence := st.firstSequence.or (some event.sequence), lastSequence := some event.sequence } := by
  unfold countLine at h
  obtain ⟨hsequence, h⟩ := require_bind_eq_ok.mp h
  obtain ⟨expected, hexpected, h⟩ := bind_eq_ok.mp h
  obtain ⟨records, hrecords, h⟩ := bind_eq_ok.mp h
  obtain ⟨-, h⟩ := require_bind_eq_ok.mp h
  obtain ⟨bytes, hbytes, h⟩ := orError_bind_eq_ok.mp h
  obtain rfl := Except.ok.inj h
  rw [nextU64_eq_ok hexpected, nextU64_eq_ok hrecords, (checkedAdd_eq_some.mp hbytes).2]
  exact ⟨hsequence, rfl⟩

theorem checkClocks_eq_ok (h : checkClocks contract event st = .ok st') :
    (∀ previous, OrdMap.find? event.clock.domain st.clocks = some previous → previous ≤ event.clock.tick) ∧
      st' = { st with
        clocks := OrdMap.insert event.clock.domain event.clock.tick st.clocks
        classClocks := OrdMap.insert event.eventClass event.clock.tick st.classClocks } := by
  unfold checkClocks at h
  obtain ⟨htick, h⟩ := require_bind_eq_ok.mp h
  obtain ⟨-, h⟩ := require_bind_eq_ok.mp h
  obtain rfl := Except.ok.inj h
  exact ⟨fun previous hprevious => htick previous hprevious, rfl⟩

/-- A frame event moves its own counter and leaves the rest of the state alone. -/
theorem checkFrameOrder_eq_ok (h : rules.checkFrameOrder contract event st = .ok st') :
    CounterMoves (contract.id = "frame_boundary") event st.nextFrameBoundary st'.nextFrameBoundary
        st.frameBoundaryRecords st'.frameBoundaryRecords ∧
      CounterMoves (contract.id = "frame_completed") event st.nextFrameCompleted st'.nextFrameCompleted
        st.frameCompletedRecords st'.frameCompletedRecords ∧
      st' = { st with
        nextFrameBoundary := st'.nextFrameBoundary, frameBoundaryRecords := st'.frameBoundaryRecords
        nextFrameCompleted := st'.nextFrameCompleted, frameCompletedRecords := st'.frameCompletedRecords } := by
  unfold checkFrameOrder at h
  split at h
  · rename_i hboundary
    obtain ⟨hframe, h⟩ := require_bind_eq_ok.mp h
    obtain ⟨-, h⟩ := require_bind_eq_ok.mp h
    obtain ⟨next, hnext, h⟩ := bind_eq_ok.mp h
    obtain ⟨records, hrecords, h⟩ := bind_eq_ok.mp h
    obtain rfl := Except.ok.inj h
    refine ⟨.inl ⟨hboundary, hframe, nextU64_eq_ok hnext, nextU64_eq_ok hrecords⟩, .inr ⟨?_, rfl, rfl⟩, rfl⟩
    rw [hboundary]
    decide
  · rename_i hboundary
    split at h
    · rename_i hcompleted
      obtain ⟨hframe, h⟩ := require_bind_eq_ok.mp h
      obtain ⟨-, h⟩ := require_bind_eq_ok.mp h
      obtain ⟨next, hnext, h⟩ := bind_eq_ok.mp h
      obtain ⟨records, hrecords, h⟩ := bind_eq_ok.mp h
      obtain rfl := Except.ok.inj h
      exact ⟨.inr ⟨hboundary, rfl, rfl⟩,
        .inl ⟨hcompleted, hframe, nextU64_eq_ok hnext, nextU64_eq_ok hrecords⟩, rfl⟩
    · rename_i hcompleted
      obtain rfl := Except.ok.inj h
      exact ⟨.inr ⟨hboundary, rfl, rfl⟩, .inr ⟨hcompleted, rfl, rfl⟩, rfl⟩

theorem countEvent_eq_ok (h : rules.countEvent event st = .ok st') :
    (st'.stopEvent = st.stopEvent ∨ ∃ occurrence, st'.stopEvent = some (event.stopFacts occurrence)) ∧
      st' = { st with
        classCounts := st'.classCounts, observationClassCounts := st'.observationClassCounts
        stopEvent := st'.stopEvent } := by
  unfold countEvent at h
  obtain ⟨count, -, h⟩ := bind_eq_ok.mp h
  split at h
  · obtain ⟨occurrence, -, h⟩ := bind_eq_ok.mp h
    obtain rfl := Except.ok.inj h
    refine ⟨?_, rfl⟩
    unfold stopFacts
    split
    · exact .inr ⟨occurrence, rfl⟩
    · exact .inl rfl
  · obtain rfl := Except.ok.inj h
    exact ⟨.inl rfl, rfl⟩

def Keyed (rules : StreamRules) : Prop :=
  ∀ id contract, OrdMap.find? id rules.selected = some contract → contract.id = id

theorem acceptEvent_eq_ok (hkeyed : rules.Keyed) (h : rules.acceptEvent line event st = .ok st') :
    rules.Accepted line event st st' := by
  unfold acceptEvent at h
  obtain ⟨matched, -, h⟩ := bind_eq_ok.mp h
  obtain ⟨st₁, hline, h⟩ := bind_eq_ok.mp h
  obtain ⟨contract, hcontract, h⟩ := bind_eq_ok.mp h
  obtain ⟨st₂, hclocks, h⟩ := bind_eq_ok.mp h
  obtain ⟨⟨⟩, hpayload, h⟩ := bind_eq_ok.mp h
  obtain ⟨st₃, horder, h⟩ := bind_eq_ok.mp h
  obtain ⟨st₄, hcount, h⟩ := bind_eq_ok.mp h
  obtain ⟨lineNumber, -, h⟩ := bind_eq_ok.mp h
  obtain rfl := Except.ok.inj h
  obtain ⟨hsequence, rfl⟩ := countLine_eq_ok hline
  have hmet := checkContract_eq_ok hcontract
  obtain ⟨htick, rfl⟩ := checkClocks_eq_ok hclocks
  obtain ⟨hvalid, hfiltered⟩ := checkPayload_eq_ok hpayload
  obtain ⟨hboundary, hcompleted, hst₃⟩ := checkFrameOrder_eq_ok horder
  obtain ⟨hstop, hst₄⟩ := countEvent_eq_ok hcount
  rw [hkeyed _ _ hmet.selected] at hboundary hcompleted
  rw [hst₃] at hst₄ hstop
  rw [hst₄]
  exact {
    contract := ⟨contract, hmet, hvalid⟩
    filtered := hfiltered
    sequence := hsequence
    expectedSequence := rfl
    records := rfl
    completeBytes := rfl
    tick := htick
    clocks := rfl
    boundary := hboundary
    completed := hcompleted
    stop := hstop }

end StreamRules

/-! ## The events read so far -/

/-- The frames run from `start` on without a gap. -/
structure FrameRun (start : ℕ) (frames : List ℕ) (next records : ℕ) : Prop where
  frames : frames = List.range' start records
  next : next = start + records

theorem FrameRun.nil (start : ℕ) : FrameRun start [] start 0 := ⟨rfl, rfl⟩

theorem FrameRun.move {eventClass : String} {events : List EventEnvelope} {event : EventEnvelope}
    {start next next' records records' : ℕ} (h : FrameRun start (classFrames eventClass events) next records)
    (hmove : StreamRules.CounterMoves (event.eventClass = eventClass) event next next' records records') :
    FrameRun start (classFrames eventClass (events ++ [event])) next' records' := by
  unfold classFrames
  rw [List.filter_append, List.map_append]
  rcases hmove with ⟨hclass, hframe, rfl, rfl⟩ | ⟨hclass, rfl, rfl⟩
  · refine ⟨?_, by rw [h.next, Nat.add_assoc]⟩
    have hframes : (events.filter fun event => event.eventClass == eventClass).map EventEnvelope.frame =
        List.range' start records := h.frames
    rw [hframes, List.range'_concat, Nat.one_mul, ← h.next, ← hframe]
    simp [hclass]
  · refine ⟨?_, h.next⟩
    rw [List.filter_cons_of_neg (by simpa using hclass), List.filter_nil, List.map_nil, List.append_nil]
    exact h.frames

section invariant

variable (decode : List UInt8 → Except String EventEnvelope) (rules : StreamRules)

/-- What the state of the loop says about the lines and events read so far. -/
structure StreamInv (st : StreamState) (lines : List (List UInt8)) (events : List EventEnvelope) : Prop where
  whole : ∀ line ∈ lines, WholeLine line
  decoded : lines.map decode = events.map Except.ok
  contracts : ∀ event ∈ events, ∃ contract, rules.ContractMet event contract ∧
    validatePayload contract event.payload = true
  filtered : ∀ event ∈ events, rules.Filtered event
  sequences : events.map EventEnvelope.sequence = List.range events.length
  expectedSequence : st.expectedSequence = events.length
  records : st.records = events.length
  completeBytes : st.completeBytes = lines.flatten.length
  ticks : TicksOrdered events
  clocks : ∀ event ∈ events, ∃ tick, OrdMap.find? event.clock.domain st.clocks = some tick ∧
    event.clock.tick ≤ tick
  boundary : FrameRun (rules.interval "frame_boundary").fStart (classFrames "frame_boundary" events)
    st.nextFrameBoundary st.frameBoundaryRecords
  completed : FrameRun (rules.interval "frame_completed").fStart (classFrames "frame_completed" events)
    st.nextFrameCompleted st.frameCompletedRecords
  stop : ∀ facts, st.stopEvent = some facts →
    ∃ event occurrence, events.getLast? = some event ∧ facts = event.stopFacts occurrence

variable {decode rules}

theorem StreamInv.start : StreamInv decode rules rules.start [] [] where
  whole _ h := (nomatch h)
  decoded := rfl
  contracts _ h := (nomatch h)
  filtered _ h := (nomatch h)
  sequences := rfl
  expectedSequence := rfl
  records := rfl
  completeBytes := rfl
  ticks := List.Pairwise.nil
  clocks _ h := (nomatch h)
  boundary := FrameRun.nil _
  completed := FrameRun.nil _
  stop _ h := (nomatch h)

theorem StreamInv.accept {st st' : StreamState} {lines : List (List UInt8)} {events : List EventEnvelope}
    {line : List UInt8} {event : EventEnvelope} (h : StreamInv decode rules st lines events)
    (hstop : st.stopEvent = none) (hwhole : WholeLine line) (hdecode : decode line = .ok event)
    (haccepted : rules.Accepted line event st st') :
    StreamInv decode rules st' (lines ++ [line]) (events ++ [event]) := by
  have hforall : ∀ {α : Type} {p : α → Prop} {l : List α} {a : α}, (∀ x ∈ l, p x) → p a →
      ∀ x ∈ l ++ [a], p x := by
    intro α p l a hl ha x hx
    rcases List.mem_append.mp hx with hx | hx
    · exact hl x hx
    · rw [List.mem_singleton.mp hx]
      exact ha
  have hclock : ∀ e ∈ events, ∃ tick, OrdMap.find? e.clock.domain st'.clocks = some tick ∧
      e.clock.tick ≤ tick := by
    intro e he
    obtain ⟨tick, hfind, hle⟩ := h.clocks e he
    rw [haccepted.clocks, OrdMap.find?_insert]
    split_ifs with hdomain
    · rw [hdomain] at hfind
      exact ⟨event.clock.tick, rfl, hle.trans (haccepted.tick tick hfind)⟩
    · exact ⟨tick, hfind, hle⟩
  exact {
    whole := hforall h.whole hwhole
    decoded := by rw [List.map_append, List.map_append, h.decoded, List.map_singleton, List.map_singleton, hdecode]
    contracts := hforall h.contracts haccepted.contract
    filtered := hforall h.filtered haccepted.filtered
    sequences := by
      rw [List.map_append, h.sequences, List.map_singleton, haccepted.sequence, h.expectedSequence,
        List.length_append, List.length_singleton, List.range_succ]
    expectedSequence := by rw [haccepted.expectedSequence, h.expectedSequence, List.length_append]; rfl
    records := by rw [haccepted.records, h.records, List.length_append]; rfl
    completeBytes := by
      rw [haccepted.completeBytes, h.completeBytes, List.flatten_append, List.length_append]
      simp
    ticks := by
      refine List.pairwise_append.mpr ⟨h.ticks, List.pairwise_singleton _ _, fun e he e' he' hdomain => ?_⟩
      obtain rfl := List.mem_singleton.mp he'
      obtain ⟨tick, hfind, hle⟩ := h.clocks e he
      rw [hdomain] at hfind
      exact hle.trans (haccepted.tick tick hfind)
    clocks := by
      refine hforall hclock ⟨event.clock.tick, ?_, Nat.le_refl _⟩
      rw [haccepted.clocks, OrdMap.find?_insert_self]
    boundary := h.boundary.move haccepted.boundary
    completed := h.completed.move haccepted.completed
    stop := by
      intro facts hfacts
      rcases haccepted.stop with hsame | ⟨occurrence, hnew⟩
      · rw [hsame, hstop] at hfacts
        cases hfacts
      · rw [hnew] at hfacts
        exact ⟨event, occurrence, List.getLast?_concat, (Option.some.inj hfacts).symm⟩ }

/-- The whole loop: the lines it read, the events they are, and what was left of a last line without a
newline. -/
theorem traverse_inv (hkeyed : rules.Keyed) {st st' : StreamState} {r r' : EventReader} {partialLine : Bool}
    (h : traverse decode rules st r = .ok (st', partialLine, r')) {lines : List (List UInt8)}
    {events : List EventEnvelope} (hinv : StreamInv decode rules st lines events) :
    ∃ lines' events' rest, StreamInv decode rules st' (lines ++ lines') (events ++ events') ∧
      Consumed r r' (lines'.flatten ++ rest) ∧ r'.AtEnd ∧ (partialLine = false → rest = []) := by
  fun_induction traverse decode rules st r generalizing lines events with
  | case1 => cases h
  | case2 st r r'' hread =>
    cases h
    obtain ⟨bytes, hconsumed, ⟨-, hempty, hend⟩ | ⟨_, -, -, hsome⟩ | ⟨-, hsome, -⟩⟩ := readBoundedLine_eq_ok hread
    · refine ⟨[], [], [], by simpa using hinv, ?_, hend, fun _ => rfl⟩
      rw [List.nil_append] at hempty
      rwa [hempty] at hconsumed
    · cases hsome
    · cases hsome
  | case3 => cases h
  | case4 st r line r'' hstop hread =>
    cases h
    obtain ⟨bytes, hconsumed, ⟨hnone, -, -⟩ | ⟨_, -, -, hsome⟩ | ⟨-, hsome, hend⟩⟩ := readBoundedLine_eq_ok hread
    · cases hnone
    · cases hsome
    · exact ⟨[], [], bytes, by simpa using hinv, hconsumed, hend, nofun⟩
  | case5 => cases h
  | case6 => cases h
  | case7 st r line whole r'' hread hstop hwhole event hdecode st'' haccept hlt ih =>
    obtain ⟨bytes, hconsumed, ⟨hnone, -, -⟩ | ⟨text, hbytes, htext, hsome⟩ | ⟨-, hsome, -⟩⟩ :=
      readBoundedLine_eq_ok hread
    · cases hnone
    · obtain ⟨rfl, -⟩ : line = bytes ∧ whole = true := by simpa using hsome
      have hnext := hinv.accept (by simpa using hstop) ⟨text, htext, hbytes⟩ hdecode
        (StreamRules.acceptEvent_eq_ok hkeyed haccept)
      obtain ⟨lines', events', rest, hinv', hconsumed', hend, hrest⟩ := ih h hnext
      refine ⟨line :: lines', event :: events', rest, by simpa using hinv', ?_, hend, hrest⟩
      simpa using hconsumed.trans hconsumed'
    · cases hsome
      exact absurd rfl hwhole

end invariant

/-! ## The rules of a stream -/

section rules

variable {registry : EventContractRegistry}

theorem mapError_eq_ok {ε ε' α : Type} {x : Except ε α} {f : ε → ε'} {a : α} :
    x.mapError f = .ok a ↔ x = .ok a := by
  cases x with
  | error e => simp [Except.mapError]
  | ok a' => simp [Except.mapError]

/-- The selection is made of the registered contracts of the listed identities. -/
structure Selects (registry : EventContractRegistry) (identities : List EventClassIdentity)
    (selected : List (String × EventContract)) : Prop where
  contract : ∀ {id c}, OrdMap.find? id selected = some c →
    ∃ identity ∈ identities, identity.id = id ∧ registry.validateIdentity identity = .ok c
  listed : ∀ identity ∈ identities, ∃ c, OrdMap.find? identity.id selected = some c ∧
    registry.validateIdentity identity = .ok c

theorem selectClasses_eq_ok {identities rest : List EventClassIdentity}
    {selected selected' : List (String × EventContract)} (hselects : Selects registry identities selected)
    (h : selectClasses registry selected rest = .ok selected') : Selects registry (identities ++ rest) selected' := by
  induction rest generalizing identities selected with
  | nil =>
    obtain rfl := Except.ok.inj h
    simpa using hselects
  | cons identity rest ih =>
    obtain ⟨contract, hcontract, h⟩ := bind_eq_ok.mp h
    rw [mapError_eq_ok] at hcontract
    have hnext : Selects registry (identities ++ [identity]) (OrdMap.insert identity.id contract selected) := by
      refine ⟨fun {id c} hfind => ?_, fun identity' hmem => ?_⟩
      · rw [OrdMap.find?_insert] at hfind
        split_ifs at hfind with hid
        · obtain rfl := Option.some.inj hfind
          exact ⟨identity, List.mem_append_right _ List.mem_cons_self, hid.symm, hcontract⟩
        · obtain ⟨identity', hmem, hid', hvalid⟩ := hselects.contract hfind
          exact ⟨identity', List.mem_append_left _ hmem, hid', hvalid⟩
      · rw [OrdMap.find?_insert]
        rcases List.mem_append.mp hmem with hmem | hmem
        · obtain ⟨c, hfind, hvalid⟩ := hselects.listed identity' hmem
          split_ifs with hid
          · -- One id has one contract.
            have hget := (EventContractRegistry.validateIdentity_eq_ok.mp hvalid).1
            have hget' := (EventContractRegistry.validateIdentity_eq_ok.mp hcontract).1
            rw [hid, hget'] at hget
            obtain rfl := Except.ok.inj hget
            exact ⟨_, rfl, hvalid⟩
          · exact ⟨c, hfind, hvalid⟩
        · obtain rfl := List.mem_singleton.mp hmem
          exact ⟨contract, if_pos rfl, hcontract⟩
    simpa using ih hnext h

theorem Selects.nil : Selects registry [] [] :=
  ⟨fun h => (nomatch h), fun _ h => (nomatch h)⟩

structure FiltersChecked (filters : List EventClassFilter) (byClass : List (String × EventClassFilter)) : Prop where
  listed : ∀ filter ∈ filters, OrdMap.find? filter.eventClass byClass = some filter
  found : ∀ {id filter}, OrdMap.find? id byClass = some filter → filter ∈ filters ∧ filter.eventClass = id

theorem FiltersChecked.nil : FiltersChecked [] [] :=
  ⟨fun _ h => (nomatch h), fun h => (nomatch h)⟩

theorem FiltersChecked.insert {filters : List EventClassFilter} {byClass : List (String × EventClassFilter)} {filter : EventClassFilter}
    (h : FiltersChecked filters byClass) (hnew : OrdMap.find? filter.eventClass byClass = none) :
    FiltersChecked (filters ++ [filter]) (OrdMap.insert filter.eventClass filter byClass) := by
  refine ⟨fun filter' hmem => ?_, fun {id filter'} hfind => ?_⟩
  · rw [OrdMap.find?_insert]
    rcases List.mem_append.mp hmem with hmem | hmem
    · rw [if_neg]
      · exact h.listed filter' hmem
      · intro hclass
        have hlisted := h.listed filter' hmem
        rw [hclass, hnew] at hlisted
        cases hlisted
    · obtain rfl := List.mem_singleton.mp hmem
      exact if_pos rfl
  · rw [OrdMap.find?_insert] at hfind
    split_ifs at hfind with hid
    · obtain rfl := Option.some.inj hfind
      exact ⟨List.mem_append_right _ List.mem_cons_self, hid.symm⟩
    · obtain ⟨hmem, hclass⟩ := h.found hfind
      exact ⟨List.mem_append_left _ hmem, hclass⟩

theorem checkFilters_eq_ok {selected : List (String × EventContract)} {filters rest : List EventClassFilter}
    {byClass byClass' : List (String × EventClassFilter)} (hchecked : FiltersChecked filters byClass)
    (h : checkFilters selected rest byClass = .ok byClass') :
    FiltersChecked (filters ++ rest) byClass' := by
  induction rest generalizing filters byClass with
  | nil =>
    obtain rfl := Except.ok.inj h
    simpa using hchecked
  | cons filter rest ih =>
    obtain ⟨contract, -, h⟩ := orError_bind_eq_ok.mp h
    obtain ⟨-, h⟩ := require_bind_eq_ok.mp h
    obtain ⟨⟨⟩, -, h⟩ := bind_eq_ok.mp h
    obtain ⟨hnew, h⟩ := require_bind_eq_ok.mp h
    simpa using ih (hchecked.insert (by simpa using hnew)) h

/-- What the checks before the stream establish. -/
structure RulesFor (registry : EventContractRegistry) (spec : EventValidationSpec) (rules : StreamRules) : Prop where
  spec_eq : rules.spec = spec
  selects : Selects registry spec.eventClasses rules.selected
  filters : FiltersChecked spec.eventFilters rules.filters

theorem streamRules_eq_ok {spec : EventValidationSpec} {anchor : Option ObservationStartFacts}
    {observationClasses : List String} {rules : StreamRules}
    (h : streamRules registry spec anchor observationClasses = .ok rules) : RulesFor registry spec rules := by
  unfold streamRules at h
  obtain ⟨selected, hselected, h⟩ := bind_eq_ok.mp h
  obtain ⟨-, h⟩ := require_bind_eq_ok.mp h
  obtain ⟨filters, hfilters, h⟩ := bind_eq_ok.mp h
  obtain ⟨⟨⟩, -, h⟩ := bind_eq_ok.mp h
  obtain rfl := Except.ok.inj h
  exact ⟨rfl, selectClasses_eq_ok Selects.nil hselected, checkFilters_eq_ok FiltersChecked.nil hfilters⟩

theorem RulesFor.keyed {spec : EventValidationSpec} {rules : StreamRules} (h : RulesFor registry spec rules) :
    rules.Keyed := by
  intro id contract hfind
  obtain ⟨identity, -, hid, hvalid⟩ := h.selects.contract hfind
  rw [← hid]
  exact EventContractRegistry.get_eq_ok_id (EventContractRegistry.validateIdentity_eq_ok.mp hvalid).1

theorem RulesFor.selects_iff {spec : EventValidationSpec} {rules : StreamRules} (h : RulesFor registry spec rules)
    (id : String) : rules.selects id = true ↔ id ∈ spec.eventClasses.map EventClassIdentity.id := by
  unfold StreamRules.selects
  rw [Option.isSome_iff_exists, List.mem_map]
  constructor
  · rintro ⟨c, hfind⟩
    obtain ⟨identity, hmem, hid, -⟩ := h.selects.contract hfind
    exact ⟨identity, hmem, hid⟩
  · rintro ⟨identity, hmem, rfl⟩
    obtain ⟨c, hfind, -⟩ := h.selects.listed identity hmem
    exact ⟨c, hfind⟩

end rules

/-! ## The report -/

/-- What the report of an accepted stream says: the lines and events of the file, the final state, and what
was left of a last line without a newline. -/
structure Reported (decode : List UInt8 → Except String EventEnvelope) (registry : EventContractRegistry)
    (spec : EventValidationSpec) (file : EventFile) (report : EventStreamReport) (rules : StreamRules)
    (st : StreamState) (partialLine : Bool) (lines : List (List UInt8)) (events : List EventEnvelope) : Prop where
  rulesFor : RulesFor registry spec rules
  inv : StreamInv decode rules st lines events
  bytes : ∃ rest, file.bytes = lines.flatten ++ rest ∧ (partialLine = false → rest = [])
  fault : file.fault = none
  completeBytes : report.completeBytes = st.completeBytes
  records : report.records = st.records
  frameBoundaryRecords : report.frameBoundaryRecords = st.frameBoundaryRecords
  frameCompletedRecords : report.frameCompletedRecords = st.frameCompletedRecords
  stopEvent : report.stopEvent = st.stopEvent
  completeness : report.completeness = streamCompleteness rules st partialLine

theorem validateEventStreamAtStart_eq_ok {decode : List UInt8 → Except String EventEnvelope}
    {sha256 : List UInt8 → String} {file : EventFile} {registry : EventContractRegistry}
    {spec : EventValidationSpec} {anchor : Option ObservationStartFacts} {observationClasses : List String}
    {report : EventStreamReport}
    (h : validateEventStreamAtStart decode sha256 file registry spec anchor observationClasses = .ok report) :
    ∃ rules st partialLine lines events,
      Reported decode registry spec file report rules st partialLine lines events := by
  unfold validateEventStreamAtStart at h
  obtain ⟨rules, hrules, h⟩ := bind_eq_ok.mp h
  obtain ⟨⟨st, partialLine, r⟩, htraverse, h⟩ := bind_eq_ok.mp h
  obtain ⟨-, h⟩ := require_bind_eq_ok.mp h
  obtain rfl := Except.ok.inj h
  have hfor := streamRules_eq_ok hrules
  obtain ⟨lines, events, rest, hinv, hconsumed, hend, hrest⟩ :=
    traverse_inv hfor.keyed htraverse StreamInv.start
  rw [List.nil_append, List.nil_append] at hinv
  refine ⟨rules, st, partialLine, lines, events, hfor, hinv, ⟨rest, ?_, hrest⟩, ?_, rfl, rfl, rfl, rfl, rfl, rfl⟩
  · have hremaining := hconsumed.remaining
    rw [hend.remaining, List.append_nil] at hremaining
    exact hremaining
  · exact hconsumed.fault.symm.trans hend.fault

end Emucap.Bundle
