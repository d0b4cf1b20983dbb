import Emucap.Bundle.EventAcceptance
import Emucap.Live.RecordingTerminal

/-!
# The event sink

`run_sink` of `live/recording_sink.rs` with the writer of `bundle/publish_event_writer.rs`. The sink writes the
lines that it receives, as long as they are events and keep to the limits, and counts them. So what it has written
of a stream within the limits is the first lines of the stream, and some first bytes of one more line where a
write failed.
-/

namespace Emucap.Live

open Emucap.Bundle Emucap.Lib

/-! ## The writer -/

inductive RecordError where
  | invalidRecord
  | lineLimit (limit : ℕ)
  | eventLimit (limit : ℕ)
  | byteLimit (limit : ℕ)
  | io (error : String)
  deriving DecidableEq

def RecordError.text : RecordError → String
  | .invalidRecord => "recording line must be one non-empty NDJSON record"
  | .lineLimit limit => "recording line exceeds limit " ++ toString limit
  | .eventLimit limit => "recording event count exceeds limit " ++ toString limit
  | .byteLimit limit => "recording byte count exceeds limit " ++ toString limit
  | .io error => error

structure BoundedEventWriter where
  file : List UInt8
  limits : RecordingLimits
  events : ℕ
  bytes : ℕ

def BoundedEventWriter.new (limits : RecordingLimits) : BoundedEventWriter := ⟨[], limits, 0, 0⟩

/-- The checks before a record is written; the new counts. -/
def BoundedEventWriter.checkRecord (writer : BoundedEventWriter) (record : List UInt8) :
    Except RecordError (ℕ × ℕ) := do
  require (record.getLast? = some newline ∧ newline ∉ record.dropLast) .invalidRecord
  require (record.length ≤ writer.limits.maxLineBytes) (.lineLimit writer.limits.maxLineBytes)
  let events ← orError (.eventLimit writer.limits.maxEvents) (checkedAdd writer.events 1)
  require (events ≤ writer.limits.maxEvents) (.eventLimit writer.limits.maxEvents)
  let bytes ← orError (.byteLimit writer.limits.maxBytes) (checkedAdd writer.bytes record.length)
  require (bytes ≤ writer.limits.maxBytes) (.byteLimit writer.limits.maxBytes)
  return (events, bytes)

/-- A write that fails leaves some first bytes of the record behind, but not all. -/
def BoundedEventWriter.writeRecord (writer : BoundedEventWriter) (record : List UInt8)
    (fault : Option (String × ℕ)) : Except RecordError Unit × BoundedEventWriter :=
  match writer.checkRecord record with
  | .error e => (.error e, writer)
  | .ok (events, bytes) =>
    match fault with
    | some (error, written) =>
      (.error (.io error), { writer with file := writer.file ++ record.dropLast.take written })
    | none => (.ok (), { writer with file := writer.file ++ record, events, bytes })

/-! ## The sink -/

/-- What `read_sink_line` answers; it answers nothing more when the connection was closed. -/
inductive SinkRead where
  /-- A whole line, and how its write fails -/
  | line (bytes : List UInt8) (fault : Option (String × ℕ))
  /-- The connection was closed within a line. -/
  | unfinished
  | failed (error : String)

structure SinkState where
  writer : BoundedEventWriter
  events : ℕ
  bytes : ℕ
  firstFrame : Option ℕ
  lastFrame : Option ℕ
  truncated : Bool

def SinkState.count (st : SinkState) (writer : BoundedEventWriter) (line : List UInt8) (event : EventEnvelope) :
    SinkState :=
  { st with
    writer
    events := saturatingAdd st.events 1
    bytes := saturatingAdd st.bytes line.length
    firstFrame := st.firstFrame.or (some event.frame)
    lastFrame := some event.frame }

section sink
variable (decode : List UInt8 → Except String EventEnvelope)

def sinkLoop : SinkState → List SinkRead → SinkState × Option String
  | st, [] => (st, none)
  | st, .unfinished :: _ => ({ st with truncated := true }, none)
  | st, .failed error :: _ => (st, some ("sink event read failed: " ++ error))
  | st, .line line fault :: rest =>
    match decode line with
    | .error error => (st, some ("sink event JSON failed: " ++ error))
    | .ok event =>
      match st.writer.writeRecord line fault with
      | (.error e, writer) => ({ st with writer }, some ("sink bounded write failed: " ++ e.text))
      | (.ok (), writer) => sinkLoop (st.count writer line event) rest

/-- `run_sink`: the outcome and the file. The connection may not be accepted, and the last `sync` may fail. -/
def runSink (limits : RecordingLimits) (refused : Option String) (reads : List SinkRead)
    (syncError : Option String) : SinkOutcome × List UInt8 :=
  let start : SinkState := ⟨.new limits, 0, 0, none, none, false⟩
  let (st, primary) :=
    match refused with
    | some error => (start, some error)
    | none => sinkLoop decode start reads
  (⟨st.events, st.bytes, st.firstFrame, st.lastFrame, st.truncated,
      match primary, syncError.map ("sink final sync failed: " ++ ·) with
      | some primary, some sync => some (primary ++ "; " ++ sync)
      | some primary, none => some primary
      | none, sync => sync⟩,
    st.writer.file)

end sink

def SinkRead.line? : SinkRead → Option (List UInt8)
  | .line bytes _ => some bytes
  | _ => none

/-! ## What is written -/

section written
variable {decode : List UInt8 → Except String EventEnvelope}

/-- A stream that the writer takes: whole lines within the limits, each of them an event. -/
structure Writable (decode : List UInt8 → Except String EventEnvelope) (limits : RecordingLimits)
    (stream : List (List UInt8)) (events : List EventEnvelope) : Prop where
  fits : LimitsFit limits
  lines : FitLines limits stream []
  decoded : stream.map decode = events.map Except.ok
  records : stream.length ≤ limits.maxEvents
  bytes : stream.flatten.length ≤ limits.maxBytes

/-- The sink has written the lines `written`. -/
structure Wrote (limits : RecordingLimits) (written : List (List UInt8)) (events : List EventEnvelope)
    (st : SinkState) : Prop where
  limits : st.writer.limits = limits
  file : st.writer.file = written.flatten
  writerEvents : st.writer.events = written.length
  writerBytes : st.writer.bytes = written.flatten.length
  count : st.events = written.length
  firstFrame : st.firstFrame = events.head?.map EventEnvelope.frame

theorem checkRecord_eq_ok {limits : RecordingLimits} {written todo : List (List UInt8)} {line : List UInt8}
    {events all : List EventEnvelope} {st : SinkState} (hst : Wrote limits written events st)
    (hstream : Writable decode limits (written ++ line :: todo) all) :
    st.writer.checkRecord line = .ok (st.writer.events + 1, st.writer.bytes + line.length) := by
  obtain ⟨⟨text, htext, hwhole⟩, hline⟩ := hstream.lines.whole line (by simp)
  have hrecords := hstream.records
  have hbytes := hstream.bytes
  have hevents := hstream.fits.events
  have htotal := hstream.fits.bytes
  simp only [List.length_append, List.length_cons, List.flatten_append, List.flatten_cons] at hrecords hbytes
  unfold BoundedEventWriter.checkRecord
  simp only [bind_eq_ok, require_eq_ok, exists_const, orError_eq_ok, checkedAdd_eq_some, hst.limits,
    hst.writerEvents, hst.writerBytes]
  refine ⟨⟨?_, ?_⟩, hline, _, ⟨by omega, rfl⟩, by omega, _, ⟨by omega, rfl⟩, by omega, rfl⟩
  · rw [hwhole, List.getLast?_concat]
  · rw [hwhole, List.dropLast_concat]
    exact htext

/-- The first lines of the stream are written, and nothing of the rest but part of one line. -/
structure WroteFirst (limits : RecordingLimits) (stream : List (List UInt8)) (events : List EventEnvelope)
    (count : ℕ) (firstFrame : Option ℕ) (file : List UInt8) (k : ℕ) (tail : List UInt8) : Prop where
  le : k ≤ stream.length
  file_eq : file = (stream.take k).flatten ++ tail
  count_eq : count = k
  firstFrame_eq : firstFrame = (events.take k).head?.map EventEnvelope.frame
  tail : newline ∉ tail ∧ tail.length ≤ limits.maxLineBytes
  bytes : file.length ≤ limits.maxBytes

theorem Wrote.first {limits : RecordingLimits} {written todo : List (List UInt8)} {events more : List EventEnvelope}
    {st : SinkState} (hlength : events.length = written.length) (hst : Wrote limits written events st)
    (hstream : Writable decode limits (written ++ todo) (events ++ more)) :
    WroteFirst limits (written ++ todo) (events ++ more) st.events st.firstFrame st.writer.file
      written.length [] := by
  refine ⟨by simp, ?_, hst.count, ?_, ⟨List.not_mem_nil, Nat.zero_le _⟩, ?_⟩
  · rw [hst.file, List.take_left, List.append_nil]
  · rw [hst.firstFrame, ← hlength, List.take_left]
  · have hbytes := hstream.bytes
    rw [List.flatten_append, List.length_append] at hbytes
    rw [hst.file]
    omega

theorem Wrote.next {limits : RecordingLimits} {written : List (List UInt8)} {events : List EventEnvelope}
    {st : SinkState} {line : List UInt8} {event : EventEnvelope} (hlength : events.length = written.length)
    (hst : Wrote limits written events st) (hcount : written.length + 1 < 2 ^ 64) :
    Wrote limits (written ++ [line]) (events ++ [event])
      (st.count { st.writer with
        file := st.writer.file ++ line, events := st.writer.events + 1, bytes := st.writer.bytes + line.length }
        line event) where
  limits := hst.limits
  file := by simp [SinkState.count, hst.file]
  writerEvents := by simp [SinkState.count, hst.writerEvents]
  writerBytes := by simp [SinkState.count, hst.writerBytes]
  count := by
    simp only [SinkState.count, saturatingAdd, hst.count, List.length_append, List.length_singleton]
    omega
  firstFrame := by
    simp only [SinkState.count, hst.firstFrame]
    cases events <;> simp

theorem sinkLoop_written {limits : RecordingLimits} {written todo : List (List UInt8)}
    {events more : List EventEnvelope} {st : SinkState} {reads : List SinkRead}
    (hlength : events.length = written.length) (hst : Wrote limits written events st)
    (hstream : Writable decode limits (written ++ todo) (events ++ more))
    (hreads : reads.filterMap SinkRead.line? <+: todo) :
    ∃ k tail, WroteFirst limits (written ++ todo) (events ++ more) (sinkLoop decode st reads).1.events
      (sinkLoop decode st reads).1.firstFrame (sinkLoop decode st reads).1.writer.file k tail := by
  induction reads generalizing written todo events more st with
  | nil => exact ⟨_, _, hst.first hlength hstream⟩
  | cons read reads ih =>
    cases read with
    | unfinished =>
      have hfirst := hst.first hlength hstream
      exact ⟨_, _, hfirst⟩
    | failed error => exact ⟨_, _, hst.first hlength hstream⟩
    | line line fault =>
      obtain ⟨todo', rfl, hreads'⟩ : ∃ todo', todo = line :: todo' ∧ reads.filterMap SinkRead.line? <+: todo' := by
        obtain ⟨todo', rfl⟩ := hreads
        exact ⟨_, rfl, List.prefix_append _ _⟩
      obtain ⟨event, more', rfl, hevent⟩ : ∃ event more', more = event :: more' ∧ decode line = .ok event := by
        have hdecoded := hstream.decoded
        rw [List.map_append, List.map_append] at hdecoded
        have hmore := (List.append_inj hdecoded (by simp [hlength])).2
        cases more with
        | nil => cases hmore
        | cons event more' =>
          rw [List.map_cons, List.map_cons, List.cons.injEq] at hmore
          exact ⟨event, more', rfl, hmore.1⟩
      have hcheck := checkRecord_eq_ok hst hstream
      cases fault with
      | some fault =>
        -- the write failed on the way
        have hrun : sinkLoop decode st (.line line (some fault) :: reads) =
            ({ st with writer := { st.writer with file := st.writer.file ++ line.dropLast.take fault.2 } },
              some ("sink bounded write failed: " ++ fault.1)) := by
          simp only [sinkLoop, hevent, BoundedEventWriter.writeRecord, hcheck]
          rfl
        have hpart : (line.dropLast.take fault.2).length ≤ line.length := by
          rw [List.length_take, List.length_dropLast]
          omega
        obtain ⟨⟨text, htext, hwhole⟩, hline⟩ := hstream.lines.whole line (by simp)
        have hbytes := hstream.bytes
        simp only [List.flatten_append, List.flatten_cons, List.length_append] at hbytes
        have hstay := hst.first hlength hstream
        rw [hrun]
        refine ⟨written.length, line.dropLast.take fault.2, hstay.le, ?_, hstay.count_eq, hstay.firstFrame_eq,
          ⟨fun hmem => ?_, by omega⟩, ?_⟩
        · simp only [hst.file, List.take_left]
        · rw [hwhole, List.dropLast_concat] at hmem
          exact htext (List.mem_of_mem_take hmem)
        · simp only [hst.file, List.length_append]
          omega
      | none =>
        have hrecords := hstream.records
        have hfits := hstream.fits.events
        rw [List.length_append, List.length_cons] at hrecords
        have hrun : sinkLoop decode st (.line line none :: reads) =
            sinkLoop decode (st.count { st.writer with
              file := st.writer.file ++ line, events := st.writer.events + 1
              bytes := st.writer.bytes + line.length } line event) reads := by
          simp only [sinkLoop, hevent, BoundedEventWriter.writeRecord, hcheck]
        have hstream' : Writable decode limits ((written ++ [line]) ++ todo') ((events ++ [event]) ++ more') := by
          rwa [List.append_assoc, List.append_assoc, List.singleton_append, List.singleton_append]
        have hwritten := ih (by simp [hlength]) (hst.next hlength (by omega)) hstream' hreads'
        rw [List.append_assoc, List.append_assoc, List.singleton_append, List.singleton_append] at hwritten
        rw [hrun]
        exact hwritten

theorem runSink_written {limits : RecordingLimits} {stream : List (List UInt8)} {events : List EventEnvelope}
    {refused syncError : Option String} {reads : List SinkRead} (hstream : Writable decode limits stream events)
    (hreads : reads.filterMap SinkRead.line? <+: stream) :
    ∃ tail, WroteFirst limits stream events (runSink decode limits refused reads syncError).1.events
      (runSink decode limits refused reads syncError).1.firstFrame
      (runSink decode limits refused reads syncError).2
      (runSink decode limits refused reads syncError).1.events tail := by
  have hstart : Wrote limits [] [] ⟨.new limits, 0, 0, none, none, false⟩ :=
    ⟨rfl, rfl, rfl, rfl, rfl, rfl⟩
  cases refused with
  | some error => exact ⟨_, hstart.first rfl hstream⟩
  | none =>
    obtain ⟨k, tail, hwritten⟩ := sinkLoop_written rfl hstart hstream hreads
    have hk : (runSink decode limits none reads syncError).1.events = k := hwritten.count_eq
    rw [hk]
    exact ⟨tail, hk ▸ hwritten⟩

end written

end Emucap.Live
