import Emucap.EventContracts
import Emucap.Lib.Json

/-!
# The event stream

The validator of an event file (`bundle/event.rs`): the file is read line by line under limits, every whole line is
decoded, and `acceptEvent` checks it. `decode` is `serde_json::from_slice` at `EventEnvelope`.
-/

namespace Emucap.Bundle

open Emucap.Lib

/-! ## Data -/

structure ClockPoint where
  domain : String
  tick : ℕ
  deriving DecidableEq

/-- One event; `eventClass` is its `class`. -/
structure EventEnvelope where
  sequence : ℕ
  eventClass : String
  contractSha256 : String
  clock : ClockPoint
  frame : ℕ
  payload : Json
  deriving DecidableEq

structure EventValidationSpec where
  fStart : ℕ
  fEnd : ℕ
  observationStart : ℕ
  classIntervals : List (String × FrameInterval)
  eventClasses : List EventClassIdentity
  eventFilters : List EventClassFilter
  limits : RecordingLimits
  stopOn : Option EventStopCondition
  deriving DecidableEq

inductive StreamCompleteness where
  | complete
  | prefixOnly
  | partialFinalLine
  deriving DecidableEq

structure EventStreamReport where
  sha256 : String
  physicalBytes : ℕ
  completeBytes : ℕ
  records : ℕ
  firstSequence : Option ℕ
  lastSequence : Option ℕ
  frameBoundaryRecords : ℕ
  frameCompletedRecords : ℕ
  classCounts : List (String × ℕ)
  stopEvent : Option EventStopFacts
  completeness : StreamCompleteness
  deriving DecidableEq

inductive EventValidationError where
  | io (error : String)
  | contract (error : EventContractError)
  | lineLimit (line limit : ℕ)
  | byteLimit (limit : ℕ)
  | eventLimit (limit : ℕ)
  | json (line : ℕ) (source : String)
  | sequence (expected actual : ℕ)
  | counterOverflow
  | unselectedClass (eventClass : String)
  | contractDigest (eventClass : String)
  | clockDomain (eventClass expected actual : String)
  | clockRegression (domain : String) (previous actual : ℕ)
  | frameScope (frame fStart fEnd : ℕ)
  | frameRelation (eventClass : String) (frame tick : ℕ)
  | frameBoundaryOrder (expected actual : ℕ)
  | frameCompletedOrder (expected actual : ℕ)
  | frameEventOrder (frame : ℕ)
  | eventAfterStop
  | stopCondition (reason : String)
  | payload (eventClass : String)
  | invalidFilter (eventClass reason : String)
  | eventOutsideFilter (eventClass : String)
  | eventBeforeObservationStart
  | observationStartMismatch
  deriving DecidableEq

abbrev EventCheck := Except EventValidationError

def nextU64 (value : ℕ) : EventCheck ℕ := orError .counterOverflow (checkedAdd value 1)

/-! ## Payloads -/

def payloadValue (payload : Json) (path : String) : Option Json :=
  (path.toList.splitOn '.').foldlM (fun value part => value.get (String.ofList part)) payload

mutual

/-- The paths of the leaves, added to those seen; nothing on a value that is no object or a path that is
there already. -/
def payloadLeafPaths (value : Json) (parent : String) (paths : List String) : Option (List String) :=
  match value with
  | .obj fields => fieldLeafPaths fields parent paths
  | _ => none

def fieldLeafPaths : List (String × Json) → String → List String → Option (List String)
  | [], _, paths => some paths
  | (name, value) :: rest, parent, paths => do
    let path := if parent = "" then name else parent ++ "." ++ name
    let paths ← if value.isObject then payloadLeafPaths value path paths
      else if path ∈ paths then none
      else some (path :: paths)
    fieldLeafPaths rest parent paths

end

def fieldAdmits (payload : Json) (field : PayloadField) : Bool :=
  match payloadValue payload field.path with
  | none => false
  | some value =>
    match field.valueType with
    | .u64 => value.asU64.any fun number => field.lower ≤ number && number ≤ field.upper
    | .bool => value.asBool.isSome

def validatePayload (contract : EventContract) (payload : Json) : Bool :=
  match contract.payloadKind with
  | .emptyObject => payload.asObject.any List.isEmpty
  | .object =>
    match payloadLeafPaths payload "" [] with
    | none => false
    | some actual =>
      let expected := contract.payloadFields.map PayloadField.path
      actual.all (expected.contains ·) && expected.all (actual.contains ·) &&
        contract.payloadFields.all (fieldAdmits payload)

/-! ## Reading lines -/

/-- A file by what its successive reads return; a read may also fail. -/
structure EventFile where
  chunks : List (List UInt8)
  nonempty : ∀ chunk ∈ chunks, chunk ≠ []
  fault : Option String

def EventFile.bytes (file : EventFile) : List UInt8 := file.chunks.flatten

/-- The buffered reader, with the bytes counted and digested so far. -/
structure EventReader where
  buffer : List UInt8
  reads : List (List UInt8)
  fault : Option String
  physicalBytes : ℕ
  hashed : List UInt8
  deriving DecidableEq

namespace EventReader

def new (file : EventFile) : EventReader := ⟨[], file.chunks, file.fault, 0, []⟩

def remaining (r : EventReader) : List UInt8 := r.buffer ++ r.reads.flatten

def size (r : EventReader) : ℕ := r.remaining.length + r.reads.length

end EventReader

def newline : UInt8 := 10

def updateTotal (total amount limit : ℕ) : EventCheck ℕ := do
  let total ← orError .counterOverflow (checkedAdd total amount)
  require (total ≤ limit) (.byteLimit limit)
  return total

def lineTake (available : List UInt8) : ℕ :=
  match available.findIdx? (· == newline) with
  | some position => position + 1
  | none => available.length

theorem lineTake_pos {available : List UInt8} (h : available ≠ []) : 0 < lineTake available := by
  unfold lineTake
  split
  · omega
  · exact List.length_pos_of_ne_nil h

/-- The checks on what is taken from the buffer; the new number of bytes read. -/
def checkTake (lineNumber : ℕ) (limits : RecordingLimits) (lineLen take physicalBytes : ℕ) : EventCheck ℕ := do
  let newLineLen ← orError .counterOverflow (checkedAdd lineLen take)
  require (newLineLen ≤ limits.maxLineBytes) (.lineLimit lineNumber limits.maxLineBytes)
  updateTotal physicalBytes take limits.maxBytes

/-- The rest of a line, where `line` is what was read of it before: the line and whether a newline ends it,
or nothing at the end of the file. -/
def readBoundedLine (lineNumber : ℕ) (limits : RecordingLimits) : List UInt8 → EventReader →
    EventCheck (Option (List UInt8 × Bool) × EventReader)
  | _, ⟨[], [], some error, _, _⟩ => .error (.io error)
  | line, ⟨[], [], none, physicalBytes, hashed⟩ =>
    .ok (if line = [] then none else some (line, false), ⟨[], [], none, physicalBytes, hashed⟩)
  -- `fill_buf` reads on.
  | line, ⟨[], available :: reads, fault, physicalBytes, hashed⟩ =>
    readBoundedLine lineNumber limits line ⟨available, reads, fault, physicalBytes, hashed⟩
  | line, ⟨b :: bs, reads, fault, physicalBytes, hashed⟩ =>
    let take := lineTake (b :: bs)
    match checkTake lineNumber limits line.length take physicalBytes with
    | .error e => .error e
    | .ok physicalBytes =>
      let r : EventReader :=
        ⟨(b :: bs).drop take, reads, fault, physicalBytes, hashed ++ (b :: bs).take take⟩
      let line := line ++ (b :: bs).take take
      if line.getLast? = some newline then .ok (some (line, true), r)
      else readBoundedLine lineNumber limits line r
termination_by _ r => r.size
decreasing_by
  · simp only [EventReader.size, EventReader.remaining, List.flatten_cons, List.nil_append, List.length_append,
      List.length_cons]
    omega
  · have hpos := lineTake_pos (List.cons_ne_nil b bs)
    simp only [EventReader.size, EventReader.remaining, List.length_append, List.length_drop, List.length_cons]
    omega

/-- The reader went over `bytes`. -/
structure Consumed (r r' : EventReader) (bytes : List UInt8) : Prop where
  remaining : r.remaining = bytes ++ r'.remaining
  hashed : r'.hashed = r.hashed ++ bytes
  physicalBytes : r'.physicalBytes = r.physicalBytes + bytes.length
  fault : r'.fault = r.fault

theorem Consumed.refl (r : EventReader) : Consumed r r [] :=
  ⟨rfl, (List.append_nil _).symm, rfl, rfl⟩

theorem Consumed.trans {r r' r'' : EventReader} {bytes bytes' : List UInt8} (h : Consumed r r' bytes)
    (h' : Consumed r' r'' bytes') : Consumed r r'' (bytes ++ bytes') := by
  refine ⟨?_, ?_, ?_, h'.fault.trans h.fault⟩
  · rw [h.remaining, h'.remaining, List.append_assoc]
  · rw [h'.hashed, h.hashed, List.append_assoc]
  · rw [h'.physicalBytes, h.physicalBytes, List.length_append, Nat.add_assoc]

/-- The file was read to its end. -/
structure EventReader.AtEnd (r : EventReader) : Prop where
  remaining : r.remaining = []
  fault : r.fault = none

theorem checkTake_eq_ok {lineNumber lineLen take physicalBytes total : ℕ} {limits : RecordingLimits}
    (h : checkTake lineNumber limits lineLen take physicalBytes = .ok total) :
    total = physicalBytes + take ∧ total ≤ limits.maxBytes ∧ lineLen + take ≤ limits.maxLineBytes := by
  unfold checkTake updateTotal at h
  simp only [bind_eq_ok, orError_eq_ok, require_eq_ok, checkedAdd_eq_some] at h
  obtain ⟨_, ⟨-, rfl⟩, ⟨⟩, hline, _, ⟨-, rfl⟩, ⟨⟩, htotal, h⟩ := h
  obtain rfl := Except.ok.inj h
  exact ⟨rfl, htotal, hline⟩

theorem take_lineTake (available : List UInt8) :
    (∃ text, newline ∉ text ∧ available.take (lineTake available) = text ++ [newline]) ∨
      (newline ∉ available ∧ lineTake available = available.length) := by
  unfold lineTake
  rcases hfind : available.findIdx? (· == newline) with _ | position
  · refine .inr ⟨fun hmem => ?_, rfl⟩
    have hnone := List.findIdx?_eq_none_iff.mp hfind newline hmem
    simp at hnone
  · refine .inl ⟨available.take position, fun hmem => ?_, ?_⟩
    · obtain ⟨hlt, -, hbefore⟩ := List.findIdx?_eq_some_iff_getElem.mp hfind
      obtain ⟨i, hi, hget⟩ := List.mem_iff_getElem.mp hmem
      have hi' : i < position := by
        rw [List.length_take] at hi
        omega
      rw [List.getElem_take] at hget
      have hne := hbefore i hi'
      simp [hget] at hne
    · obtain ⟨hlt, hget, -⟩ := List.findIdx?_eq_some_iff_getElem.mp hfind
      simp only
      rw [List.take_add_one, List.getElem?_eq_getElem hlt, beq_iff_eq.mp hget]
      rfl

theorem lineTake_le (available : List UInt8) : lineTake available ≤ available.length := by
  unfold lineTake
  split
  · rename_i position hfind
    obtain ⟨hlt, -⟩ := List.findIdx?_eq_some_iff_getElem.mp hfind
    exact hlt
  · exact Nat.le_refl _

theorem consumed_take {lineNumber : ℕ} {limits : RecordingLimits} {line buffer : List UInt8}
    {reads : List (List UInt8)} {fault : Option String} {physicalBytes total : ℕ} {hashed : List UInt8}
    (h : checkTake lineNumber limits line.length (lineTake buffer) physicalBytes = .ok total) :
    Consumed ⟨buffer, reads, fault, physicalBytes, hashed⟩
      ⟨buffer.drop (lineTake buffer), reads, fault, total, hashed ++ buffer.take (lineTake buffer)⟩
      (buffer.take (lineTake buffer)) := by
  refine ⟨?_, rfl, ?_, rfl⟩
  · simp only [EventReader.remaining]
    rw [← List.append_assoc, List.take_append_drop]
  · simp only
    rw [(checkTake_eq_ok h).1, List.length_take, Nat.min_eq_left (lineTake_le buffer)]

/-- What reading a line can do: find the end of the file, read a whole line, or read what is left of a line
that has no newline. -/
theorem readBoundedLine_eq_ok {lineNumber : ℕ} {limits : RecordingLimits} {line : List UInt8}
    {r r' : EventReader} {result : Option (List UInt8 × Bool)}
    (h : readBoundedLine lineNumber limits line r = .ok (result, r')) :
    ∃ bytes, Consumed r r' bytes ∧
      ((result = none ∧ line ++ bytes = [] ∧ r'.AtEnd) ∨
        (∃ text, bytes = text ++ [newline] ∧ newline ∉ text ∧ result = some (line ++ bytes, true)) ∨
        (newline ∉ bytes ∧ result = some (line ++ bytes, false) ∧ r'.AtEnd)) := by
  fun_induction readBoundedLine lineNumber limits line r with
  | case1 => cases h
  | case2 line physicalBytes hashed =>
    cases h
    refine ⟨[], Consumed.refl _, ?_⟩
    by_cases hline : line = []
    · exact .inl ⟨if_pos hline, by simpa using hline, rfl, rfl⟩
    · refine .inr (.inr ⟨List.not_mem_nil, ?_, rfl, rfl⟩)
      rw [if_neg hline, List.append_nil]
  | case3 line available reads fault physicalBytes hashed ih =>
    obtain ⟨bytes, hconsumed, hresult⟩ := ih h
    exact ⟨bytes, ⟨hconsumed.remaining, hconsumed.hashed, hconsumed.physicalBytes, hconsumed.fault⟩, hresult⟩
  | case4 => cases h
  | case5 line b bs reads fault physicalBytes hashed take total htake r line' hlast =>
    obtain ⟨hresult, hr⟩ : some (line', true) = result ∧ r = r' := by simpa using h
    rw [← hresult, ← hr]
    refine ⟨_, consumed_take htake, .inr (.inl ?_)⟩
    rcases take_lineTake (b :: bs) with ⟨text, htext, htaken⟩ | ⟨hnone, hall⟩
    · exact ⟨text, htaken, htext, rfl⟩
    · -- The last byte of the line is one of those taken.
      refine absurd (List.mem_of_getLast? (l := b :: bs) ?_) hnone
      simp only [line', take, hall, List.take_length] at hlast
      rwa [List.getLast?_append_of_ne_nil _ (List.cons_ne_nil _ _)] at hlast
  | case6 line b bs reads fault physicalBytes hashed take total htake r line' hlast ih =>
    obtain ⟨bytes, hconsumed, hresult⟩ := ih h
    have hnone : newline ∉ (b :: bs).take take := by
      rcases take_lineTake (b :: bs) with ⟨text, -, htaken⟩ | ⟨hnone, -⟩
      · refine absurd ?_ hlast
        simp only [line', take, htaken, ← List.append_assoc, List.getLast?_concat]
      · exact fun hmem => hnone (List.mem_of_mem_take hmem)
    refine ⟨_, (consumed_take htake).trans hconsumed, ?_⟩
    simp only [line', List.append_assoc] at hresult
    rcases hresult with hend | ⟨text, htext, hmem, hresult⟩ | ⟨hmem, hresult, hend⟩
    · exact .inl hend
    · refine .inr (.inl ⟨(b :: bs).take take ++ text, ?_, ?_, hresult⟩)
      · rw [htext, List.append_assoc]
      · rw [List.mem_append]
        exact fun hor => hor.elim hnone hmem
    · refine .inr (.inr ⟨?_, hresult, hend⟩)
      rw [List.mem_append]
      exact fun hor => hor.elim hnone hmem

theorem readBoundedLine_lt {lineNumber : ℕ} {limits : RecordingLimits} {line line' : List UInt8}
    {r r' : EventReader} {whole : Bool}
    (h : readBoundedLine lineNumber limits line r = .ok (some (line', whole), r')) (hwhole : whole ≠ false) :
    r'.remaining.length < r.remaining.length := by
  obtain ⟨bytes, hconsumed, ⟨hnone, -, -⟩ | ⟨text, rfl, -, -⟩ | ⟨-, hunfinished, -⟩⟩ := readBoundedLine_eq_ok h
  · cases hnone
  · rw [hconsumed.remaining, List.length_append, List.length_append, List.length_singleton]
    omega
  · cases hunfinished
    exact absurd rfl hwhole

/-! ## Selection and filters -/

def selectClasses (registry : EventContractRegistry) (selected : List (String × EventContract)) :
    List EventClassIdentity → EventCheck (List (String × EventContract))
  | [] => .ok selected
  | identity :: rest => do
    let contract ← (registry.validateIdentity identity).mapError .contract
    selectClasses registry (OrdMap.insert identity.id contract selected) rest

def maxEventFilterTerms : ℕ := 8

def termValid (contract : EventContract) : EventFilterTerm → Bool
  | .u64Range path start length =>
    (contract.payloadFields.find? fun field => field.path == path).any fun field =>
      field.valueType == .u64 && 0 < length && field.lower ≤ start &&
        (checkedAdd start length).any fun last => last - 1 ≤ field.upper

def checkTerms (eventClass : String) (contract : EventContract) : List EventFilterTerm → List String → EventCheck Unit
  | [], _ => .ok ()
  | term :: rest, seen => do
    require (term.path ∉ seen) (.invalidFilter eventClass ("duplicate field path " ++ term.path))
    require (termValid contract term)
      (.invalidFilter eventClass ("u64_range for " ++ term.path ++ " is outside its payload contract"))
    checkTerms eventClass contract rest (term.path :: seen)

/-- The filters by their class, after the checks that answer `InvalidFilter`. -/
def checkFilters (selected : List (String × EventContract)) :
    List EventClassFilter → List (String × EventClassFilter) → EventCheck (List (String × EventClassFilter))
  | [], filters => .ok filters
  | filter :: rest, filters => do
    let contract ← orError (.invalidFilter filter.eventClass "event class is not selected")
      (OrdMap.find? filter.eventClass selected)
    require (filter.terms ≠ [] ∧ filter.terms.length ≤ maxEventFilterTerms)
      (.invalidFilter filter.eventClass "terms must contain 1..=8 entries")
    checkTerms filter.eventClass contract filter.terms []
    require (OrdMap.find? filter.eventClass filters).isNone
      (.invalidFilter filter.eventClass "duplicate class filter")
    checkFilters selected rest (OrdMap.insert filter.eventClass filter filters)

def checkStop (selected : List (String × EventContract)) : Option EventStopCondition → EventCheck Unit
  | none => .ok ()
  | some stop => require (stop.occurrence ≠ 0 ∧ (OrdMap.find? stop.eventClass selected).isSome)
      (.stopCondition "class must be selected and occurrence must be positive")

/-! ## One event -/

structure StreamRules where
  spec : EventValidationSpec
  selected : List (String × EventContract)
  filters : List (String × EventClassFilter)
  anchor : Option ObservationStartFacts
  observationClasses : List String
  deriving DecidableEq

structure StreamState where
  completeBytes : ℕ
  records : ℕ
  expectedSequence : ℕ
  firstSequence : Option ℕ
  lastSequence : Option ℕ
  clocks : List (String × ℕ)
  classClocks : List (String × ℕ)
  classCounts : List (String × ℕ)
  observationClassCounts : List (String × ℕ)
  nextFrameBoundary : ℕ
  nextFrameCompleted : ℕ
  frameBoundaryRecords : ℕ
  frameCompletedRecords : ℕ
  stopEvent : Option EventStopFacts
  observationStartMatched : Bool
  lineNumber : ℕ
  deriving DecidableEq

namespace StreamRules

variable (rules : StreamRules)

def interval (eventClass : String) : FrameInterval :=
  (OrdMap.find? eventClass rules.spec.classIntervals).getD ⟨rules.spec.fStart, rules.spec.fEnd⟩

def selects (eventClass : String) : Bool := (OrdMap.find? eventClass rules.selected).isSome

def start : StreamState where
  completeBytes := 0
  records := 0
  expectedSequence := 0
  firstSequence := none
  lastSequence := none
  clocks := []
  classClocks := []
  classCounts := []
  observationClassCounts := []
  nextFrameBoundary := (rules.interval "frame_boundary").fStart
  nextFrameCompleted := (rules.interval "frame_completed").fStart
  frameBoundaryRecords := 0
  frameCompletedRecords := 0
  stopEvent := none
  observationStartMatched := rules.anchor.isNone
  lineNumber := 1

def checkAnchor (matched : Bool) (event : EventEnvelope) : EventCheck Bool :=
  match rules.anchor with
  | none => .ok matched
  | some start => do
    require (¬ (event.sequence < start.sequence ∧ event.eventClass ∈ rules.observationClasses))
      .eventBeforeObservationStart
    if event.sequence = start.sequence then
      require (event.eventClass = start.eventClass ∧ event.contractSha256 = start.contractSha256 ∧
        event.frame = start.frame ∧ event.clock.domain = start.clockDomain ∧
        event.clock.tick = start.clockTick ∧ event.eventClass ∈ rules.observationClasses)
        .observationStartMismatch
      return true
    else
      require (¬ (start.sequence < event.sequence ∧ !matched)) .observationStartMismatch
      return matched

def relationValid (contract : EventContract) (event : EventEnvelope) : Bool :=
  match contract.frameRelation with
  | .tick => event.frame == event.clock.tick
  | .previousTick => checkedAdd event.frame 1 == some event.clock.tick
  | .independent => true

/-- The checks of an event against the contract of its class; the contract. -/
def checkContract (event : EventEnvelope) : EventCheck EventContract := do
  let contract ← orError (.unselectedClass event.eventClass) (OrdMap.find? event.eventClass rules.selected)
  require (event.contractSha256 = contract.contractSha256) (.contractDigest event.eventClass)
  require (event.clock.domain = contract.clockDomain)
    (.clockDomain event.eventClass contract.clockDomain event.clock.domain)
  let scope := rules.interval event.eventClass
  require (scope.fStart ≤ event.frame ∧ event.frame < scope.fEnd)
    (.frameScope event.frame scope.fStart scope.fEnd)
  require (relationValid contract event) (.frameRelation event.eventClass event.frame event.clock.tick)
  return contract

def checkClocks (contract : EventContract) (event : EventEnvelope) (st : StreamState) :
    EventCheck StreamState := do
  let tick := event.clock.tick
  require (∀ previous ∈ OrdMap.find? event.clock.domain st.clocks, previous ≤ tick)
    (.clockRegression event.clock.domain ((OrdMap.find? event.clock.domain st.clocks).getD 0) tick)
  require (∀ previous ∈ OrdMap.find? event.eventClass st.classClocks,
      contract.clockOrder.admits previous tick)
    (.clockRegression (event.clock.domain ++ ":" ++ event.eventClass)
      ((OrdMap.find? event.eventClass st.classClocks).getD 0) tick)
  return { st with
    clocks := OrdMap.insert event.clock.domain tick st.clocks
    classClocks := OrdMap.insert event.eventClass tick st.classClocks }

/-- The payload value lies in the range, whose end was checked not to overflow. -/
def termAdmits (payload : Json) : EventFilterTerm → Bool
  | .u64Range path start length =>
    ((payloadValue payload path).bind Json.asU64).any fun value =>
      start ≤ value && (checkedAdd start length).any (value < ·)

def checkPayload (contract : EventContract) (event : EventEnvelope) : EventCheck Unit := do
  require (validatePayload contract event.payload) (.payload event.eventClass)
  require ((OrdMap.find? event.eventClass rules.filters).all fun filter =>
    filter.terms.all (termAdmits event.payload)) (.eventOutsideFilter event.eventClass)

def checkFrameOrder (contract : EventContract) (event : EventEnvelope) (st : StreamState) :
    EventCheck StreamState :=
  if contract.id = "frame_boundary" then do
    require (event.frame = st.nextFrameBoundary) (.frameBoundaryOrder st.nextFrameBoundary event.frame)
    require (¬ (rules.selects "frame_completed" ∧ (rules.interval event.eventClass).fStart < event.frame ∧
      st.nextFrameCompleted < event.frame)) (.frameEventOrder event.frame)
    let nextFrameBoundary ← nextU64 st.nextFrameBoundary
    let frameBoundaryRecords ← nextU64 st.frameBoundaryRecords
    return { st with nextFrameBoundary, frameBoundaryRecords }
  else if contract.id = "frame_completed" then do
    require (event.frame = st.nextFrameCompleted) (.frameCompletedOrder st.nextFrameCompleted event.frame)
    require (event.frame < st.nextFrameBoundary) (.frameEventOrder event.frame)
    let nextFrameCompleted ← nextU64 st.nextFrameCompleted
    let frameCompletedRecords ← nextU64 st.frameCompletedRecords
    return { st with nextFrameCompleted, frameCompletedRecords }
  else return st

def observationStarted (event : EventEnvelope) : Bool :=
  match rules.anchor with
  | none => rules.spec.observationStart ≤ event.frame
  | some start => start.sequence ≤ event.sequence

def stopFacts (event : EventEnvelope) (occurrence : ℕ) : Option EventStopFacts :=
  if rules.spec.stopOn.any (fun stop => stop.eventClass == event.eventClass && stop.occurrence == occurrence) then
    some ⟨event.sequence, event.eventClass, event.clock.domain, event.clock.tick, event.frame, occurrence⟩
  else none

/-- Count the event, and stop where the requested occurrence is reached. -/
def countEvent (event : EventEnvelope) (st : StreamState) : EventCheck StreamState := do
  let count ← nextU64 ((OrdMap.find? event.eventClass st.classCounts).getD 0)
  let st := { st with classCounts := OrdMap.insert event.eventClass count st.classCounts }
  if rules.observationStarted event then
    let occurrence ← nextU64 ((OrdMap.find? event.eventClass st.observationClassCounts).getD 0)
    return { st with
      observationClassCounts := OrdMap.insert event.eventClass occurrence st.observationClassCounts
      stopEvent := (rules.stopFacts event occurrence).or st.stopEvent }
  else return st

def countLine (line : List UInt8) (event : EventEnvelope) (st : StreamState) : EventCheck StreamState := do
  require (event.sequence = st.expectedSequence) (.sequence st.expectedSequence event.sequence)
  let expectedSequence ← nextU64 st.expectedSequence
  let records ← nextU64 st.records
  require (records ≤ rules.spec.limits.maxEvents) (.eventLimit rules.spec.limits.maxEvents)
  let completeBytes ← orError .counterOverflow (checkedAdd st.completeBytes line.length)
  return { st with
    expectedSequence, records, completeBytes
    firstSequence := st.firstSequence.or (some event.sequence)
    lastSequence := some event.sequence }

def acceptEvent (line : List UInt8) (event : EventEnvelope) (st : StreamState) : EventCheck StreamState := do
  let observationStartMatched ← rules.checkAnchor st.observationStartMatched event
  let st ← rules.countLine line event { st with observationStartMatched }
  let contract ← rules.checkContract event
  let st ← checkClocks contract event st
  rules.checkPayload contract event
  let st ← rules.checkFrameOrder contract event st
  let st ← rules.countEvent event st
  let lineNumber ← nextU64 st.lineNumber
  return { st with lineNumber }

end StreamRules

/-! ## The whole stream -/

section stream

variable (decode : List UInt8 → Except String EventEnvelope)

def traverse (rules : StreamRules) (st : StreamState) (r : EventReader) :
    EventCheck (StreamState × Bool × EventReader) :=
  match hread : readBoundedLine st.lineNumber rules.spec.limits [] r with
  | .error e => .error e
  | .ok (none, r') => .ok (st, false, r')
  | .ok (some (line, whole), r') =>
    if st.stopEvent.isSome then .error .eventAfterStop
    else if hwhole : whole = false then .ok (st, true, r')
    else match decode line with
      | .error source => .error (.json st.lineNumber source)
      | .ok event =>
        match rules.acceptEvent line event st with
        | .error e => .error e
        | .ok st' =>
          have : r'.remaining.length < r.remaining.length := readBoundedLine_lt hread hwhole
          traverse rules st' r'
termination_by r.remaining.length

def streamRules (registry : EventContractRegistry) (spec : EventValidationSpec)
    (anchor : Option ObservationStartFacts) (observationClasses : List String) : EventCheck StreamRules := do
  let selected ← selectClasses registry [] spec.eventClasses
  require (selected ≠ []) (.unselectedClass "<none>")
  let filters ← checkFilters selected spec.eventFilters []
  checkStop selected spec.stopOn
  return ⟨spec, selected, filters, anchor, observationClasses⟩

/-- How far the stream covers its scope. -/
def streamCompleteness (rules : StreamRules) (st : StreamState) (partialLine : Bool) : StreamCompleteness :=
  let boundaryEnd := (rules.interval "frame_boundary").fEnd
  let completedEnd := (rules.interval "frame_completed").fEnd
  let completedFrameCoverage := !rules.selects "frame_completed" || st.nextFrameCompleted == completedEnd ||
    st.stopEvent.any fun event =>
      checkedAdd event.frame 1 == some completedEnd && st.nextFrameCompleted == event.frame
  if partialLine then .partialFinalLine
  else if rules.selects "frame_boundary" && st.nextFrameBoundary == boundaryEnd && completedFrameCoverage then
    .complete
  else .prefixOnly

variable (sha256 : List UInt8 → String)

def validateEventStreamAtStart (file : EventFile) (registry : EventContractRegistry) (spec : EventValidationSpec)
    (anchor : Option ObservationStartFacts) (observationClasses : List String) :
    EventCheck EventStreamReport := do
  let rules ← streamRules registry spec anchor observationClasses
  let (st, partialLine, r) ← traverse decode rules rules.start (EventReader.new file)
  require st.observationStartMatched .observationStartMismatch
  return {
    sha256 := sha256 r.hashed
    physicalBytes := r.physicalBytes
    completeBytes := st.completeBytes
    records := st.records
    firstSequence := st.firstSequence
    lastSequence := st.lastSequence
    frameBoundaryRecords := st.frameBoundaryRecords
    frameCompletedRecords := st.frameCompletedRecords
    classCounts := st.classCounts
    stopEvent := st.stopEvent
    completeness := streamCompleteness rules st partialLine }

end stream

end Emucap.Bundle
