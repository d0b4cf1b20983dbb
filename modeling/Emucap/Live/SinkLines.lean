import Emucap.Bundle.LineReading
import Emucap.Live.RecordingSink
import Mathlib.Algebra.GroupWithZero.Nat

/-!
# The event sink on its connection

`read_sink_line` and the loop of `run_sink` (`live/recording_sink.rs`), on any answers of the connection. The file of
a run is a number of whole lines at the front of the stream (`LineRead`, `SinkStops`).
-/

namespace Emucap.Live

open Emucap.Bundle Emucap.Lib

/-! ## The connection -/

/-- What a read of the connection answers. -/
inductive SocketRead where
  /-- Bytes, or none where the producer has closed the connection -/
  | bytes (chunk : List UInt8)
  /-- `WouldBlock` or `TimedOut` -/
  | waiting
  | failed (error : String)
  deriving DecidableEq

def SocketRead.size : SocketRead → ℕ
  | .bytes chunk => chunk.length + 1
  | _ => 1

/-- The bytes that the producer sends, up to the end of the connection. -/
def sent : List SocketRead → List UInt8
  | [] => []
  | .bytes [] :: _ => []
  | .bytes (b :: bs) :: reads => (b :: bs) ++ sent reads
  | .waiting :: reads => sent reads
  | .failed _ :: _ => []

/-- The buffered reader: what its buffer holds, what the next reads answer, and the turns it took. -/
structure SinkReader where
  buffer : List UInt8
  reads : List SocketRead
  turn : ℕ
  deriving DecidableEq

namespace SinkReader

def stream (r : SinkReader) : List UInt8 := r.buffer ++ sent r.reads

def size (r : SinkReader) : ℕ := r.buffer.length + (r.reads.map SocketRead.size).sum

/-- `fill_buf`; nothing where no further read is listed. -/
def fillBuf (r : SinkReader) : Option (SocketRead × SinkReader) :=
  match r.buffer, r.reads with
  | b :: bs, reads => some (.bytes (b :: bs), ⟨b :: bs, reads, r.turn + 1⟩)
  | [], [] => none
  | [], .bytes chunk :: reads => some (.bytes chunk, ⟨chunk, reads, r.turn + 1⟩)
  | [], .waiting :: reads => some (.waiting, ⟨[], reads, r.turn + 1⟩)
  | [], .failed error :: reads => some (.failed error, ⟨[], reads, r.turn + 1⟩)

variable {r r' : SinkReader}

theorem fillBuf_bytes {b : UInt8} {bs : List UInt8} (h : r.fillBuf = some (.bytes (b :: bs), r')) :
    r.stream = (b :: bs) ++ sent r'.reads ∧ r'.reads <:+ r.reads ∧
      (b :: bs).length + (r'.reads.map SocketRead.size).sum ≤ r.size := by
  obtain ⟨buffer, reads, turn⟩ := r
  unfold fillBuf at h
  split at h <;> simp only [Option.some.injEq, Prod.mk.injEq, SocketRead.bytes.injEq, reduceCtorEq, false_and] at h
  · next heq =>
    obtain ⟨hbytes, rfl⟩ := h
    simp only at heq
    subst heq
    rw [hbytes]
    exact ⟨rfl, List.suffix_refl _, le_refl _⟩
  · next heq heq' =>
    obtain ⟨rfl, rfl⟩ := h
    simp only at heq heq'
    subst heq heq'
    refine ⟨rfl, List.suffix_cons _ _, ?_⟩
    simp only [size, List.map_cons, List.sum_cons, SocketRead.size, List.length_nil]
    omega

theorem fillBuf_closed (h : r.fillBuf = some (.bytes [], r')) : r.stream = [] := by
  obtain ⟨buffer, reads, turn⟩ := r
  unfold fillBuf at h
  split at h <;> simp only [Option.some.injEq, Prod.mk.injEq, SocketRead.bytes.injEq, reduceCtorEq, false_and] at h
  next heq heq' =>
    obtain ⟨rfl, rfl⟩ := h
    simp only at heq heq'
    subst heq heq'
    rfl

theorem fillBuf_waiting (h : r.fillBuf = some (.waiting, r')) :
    r.stream = r'.stream ∧ r'.reads <:+ r.reads ∧ r'.size < r.size := by
  obtain ⟨buffer, reads, turn⟩ := r
  unfold fillBuf at h
  split at h <;> simp only [Option.some.injEq, Prod.mk.injEq, reduceCtorEq, false_and, true_and] at h
  next heq heq' =>
    subst h
    simp only at heq heq'
    subst heq heq'
    refine ⟨rfl, List.suffix_cons _ _, ?_⟩
    simp only [size, List.map_cons, List.sum_cons, SocketRead.size]
    omega

theorem fillBuf_failed {error : String} (h : r.fillBuf = some (.failed error, r')) :
    SocketRead.failed error ∈ r.reads := by
  obtain ⟨buffer, reads, turn⟩ := r
  unfold fillBuf at h
  split at h <;> simp only [Option.some.injEq, Prod.mk.injEq, SocketRead.failed.injEq, reduceCtorEq, false_and] at h
  next heq heq' =>
    obtain ⟨rfl, -⟩ := h
    simp only at heq'
    rw [heq']
    exact List.mem_cons_self

end SinkReader

/-! ## One line -/

section line
variable (spent : ℕ → Bool) (limit : ℕ)

def checkLine (lineLen take : ℕ) : Except String Unit := do
  let next ← orError "sink line overflow" (checkedAdd lineLen take)
  require (next ≤ limit) "sink line exceeds admitted limit"

inductive LineTurn where
  /-- No further read is listed. -/
  | waits
  | answers (result : Except String (Option (List UInt8 × Bool))) (r : SinkReader)
  | goesOn (line : List UInt8) (r : SinkReader)

/-- One turn of `read_sink_line`, where `line` was read before; `spent` says when it was stopped or the deadline
has passed. -/
def lineTurn (line : List UInt8) (r : SinkReader) : LineTurn :=
  if spent r.turn then .answers (.error "sink deadline") r
  else match r.fillBuf with
    | none => .waits
    | some (.waiting, r') => .goesOn line r'
    | some (.failed error, r') => .answers (.error error) r'
    | some (.bytes [], r') => .answers (.ok (if line = [] then none else some (line, false))) r'
    | some (.bytes (b :: bs), r') =>
      match checkLine limit line.length (lineTake (b :: bs)) with
      | .error error => .answers (.error error) r'
      | .ok () =>
        if (line ++ (b :: bs).take (lineTake (b :: bs))).getLast? = some newline then
          .answers (.ok (some (line ++ (b :: bs).take (lineTake (b :: bs)), true)))
            { r' with buffer := (b :: bs).drop (lineTake (b :: bs)) }
        else
          .goesOn (line ++ (b :: bs).take (lineTake (b :: bs)))
            { r' with buffer := (b :: bs).drop (lineTake (b :: bs)) }

/-- The reader was stopped, or its deadline passed, or a read failed. -/
def Interrupted (reads : List SocketRead) (error : String) : Prop :=
  (error = "sink deadline" ∧ ∃ turn, spent turn = true) ∨ SocketRead.failed error ∈ reads

/-- What a call of the reader answers, by the bytes that are still to come. -/
inductive LineRead (line : List UInt8) (r : SinkReader) :
    Except String (Option (List UInt8 × Bool)) → SinkReader → Prop
  | closed {r'} : line = [] → r.stream = [] → LineRead line r (.ok none) r'
  | unfinished {r'} : newline ∉ r.stream → line ++ r.stream ≠ [] → (line ++ r.stream).length ≤ limit →
      LineRead line r (.ok (some (line ++ r.stream, false))) r'
  | whole {text r'} : newline ∉ text → r.stream = text ++ newline :: r'.stream →
      line.length + text.length + 1 ≤ limit → r'.reads <:+ r.reads → r'.size < r.size →
      LineRead line r (.ok (some (line ++ (text ++ [newline]), true))) r'
  | overLong {error r'} : error = "sink line exceeds admitted limit" ∨ error = "sink line overflow" →
      limit < line.length + lineTake r.stream → LineRead line r (.error error) r'
  | interrupted {error r'} : Interrupted spent r.reads error → LineRead line r (.error error) r'

/-- The reader took `bytes`, in which no line ends. -/
structure Took (r r' : SinkReader) (bytes : List UInt8) : Prop where
  stream : r.stream = bytes ++ r'.stream
  noNewline : newline ∉ bytes
  reads : r'.reads <:+ r.reads
  size : r'.size < r.size

variable {spent limit}

theorem Interrupted.mono {reads reads' : List SocketRead} {error : String} (h : Interrupted spent reads error)
    (hreads : reads <:+ reads') : Interrupted spent reads' error :=
  h.imp id fun hmem => hreads.subset hmem

theorem LineRead.before {line bytes : List UInt8} {r r₁ r' : SinkReader}
    {result : Except String (Option (List UInt8 × Bool))} (htook : Took r r₁ bytes)
    (h : LineRead spent limit (line ++ bytes) r₁ result r') : LineRead spent limit line r result r' := by
  have hstream := htook.stream
  cases h with
  | closed hline hrest =>
    obtain ⟨rfl, rfl⟩ := List.append_eq_nil_iff.mp hline
    exact .closed rfl (by rw [hstream, hrest, List.append_nil])
  | unfinished hmem hne hlength =>
    rw [List.append_assoc, ← hstream] at hne hlength ⊢
    refine .unfinished ?_ hne hlength
    rw [hstream, List.mem_append, not_or]
    exact ⟨htook.noNewline, hmem⟩
  | @whole text _ htext hrest hlength hreads hsize =>
    rw [List.append_assoc, ← List.append_assoc bytes]
    rw [List.length_append] at hlength
    refine .whole ?_ ?_ ?_ (hreads.trans htook.reads) (hsize.trans htook.size)
    · rw [List.mem_append, not_or]
      exact ⟨htook.noNewline, htext⟩
    · rw [hstream, hrest, List.append_assoc]
    · rw [List.length_append]
      omega
  | overLong herror hlength =>
    refine .overLong herror ?_
    rw [hstream, lineTake_append_of_not_mem htook.noNewline]
    rw [List.length_append] at hlength
    omega
  | interrupted h => exact .interrupted (h.mono htook.reads)

theorem checkLine_errors (lineLen take : ℕ) (hlimit : limit < 2 ^ 64) :
    ErrorsIn (fun error => (error = "sink line exceeds admitted limit" ∨ error = "sink line overflow") ∧
      limit < lineLen + take) (checkLine limit lineLen take) := by
  unfold checkLine
  refine errorsIn_orError_bind (fun hnone => ⟨.inr rfl, ?_⟩) fun next hnext => ?_
  · exact hlimit.trans_le (checkedAdd_eq_none.mp hnone)
  · obtain ⟨-, rfl⟩ := checkedAdd_eq_some.mp hnext
    exact errorsIn_require fun hle => ⟨.inl rfl, Nat.lt_of_not_le hle⟩

theorem checkLine_eq_ok {lineLen take : ℕ} (h : checkLine limit lineLen take = .ok ()) : lineLen + take ≤ limit := by
  unfold checkLine at h
  obtain ⟨next, hnext, h⟩ := orError_bind_eq_ok.mp h
  obtain ⟨-, rfl⟩ := checkedAdd_eq_some.mp hnext
  exact require_eq_ok.mp h

theorem lineTurn_cases (hlimit : limit < 2 ^ 64) {line : List UInt8} (hnone : newline ∉ line)
    (hlength : line.length ≤ limit) (r : SinkReader) :
    lineTurn spent limit line r = .waits ∨
      (∃ result r', lineTurn spent limit line r = .answers result r' ∧ LineRead spent limit line r result r') ∨
      ∃ bytes r', lineTurn spent limit line r = .goesOn (line ++ bytes) r' ∧ Took r r' bytes ∧
        (line ++ bytes).length ≤ limit := by
  unfold lineTurn
  by_cases hspent : spent r.turn = true
  · rw [if_pos hspent]
    exact .inr (.inl ⟨_, _, rfl, .interrupted (.inl ⟨rfl, r.turn, hspent⟩)⟩)
  rw [if_neg hspent]
  match hfill : r.fillBuf with
  | none => exact .inl rfl
  | some (.waiting, r') =>
    obtain ⟨hstream, hreads, hsize⟩ := SinkReader.fillBuf_waiting hfill
    refine .inr (.inr ⟨[], r', ?_, ⟨hstream, List.not_mem_nil, hreads, hsize⟩, ?_⟩)
    · rw [List.append_nil]
    · rwa [List.append_nil]
  | some (.failed error, r') =>
    exact .inr (.inl ⟨_, _, rfl, .interrupted (.inr (SinkReader.fillBuf_failed hfill))⟩)
  | some (.bytes [], r') =>
    have hstream := SinkReader.fillBuf_closed hfill
    refine .inr (.inl ⟨_, _, rfl, ?_⟩)
    by_cases hline : line = []
    · rw [if_pos hline]
      exact .closed hline hstream
    · have hread : LineRead spent limit line r (.ok (some (line ++ r.stream, false))) r' :=
        .unfinished (by rw [hstream]; exact List.not_mem_nil) (by rwa [hstream, List.append_nil])
          (by rwa [hstream, List.append_nil])
      rw [if_neg hline]
      rwa [hstream, List.append_nil] at hread
  | some (.bytes (b :: bs), r') =>
    obtain ⟨hstream, hreads, hsize⟩ := SinkReader.fillBuf_bytes hfill
    match hcheck : checkLine limit line.length (lineTake (b :: bs)) with
    | .error error =>
      obtain ⟨herror, hlong⟩ := checkLine_errors _ _ hlimit error hcheck
      have hle : lineTake (b :: bs) ≤ lineTake r.stream := hstream ▸ lineTake_le_append _ _
      refine .inr (.inl ⟨.error error, r', ?_, .overLong herror (by omega)⟩)
      simp only [hcheck]
    | .ok () =>
      have hle := checkLine_eq_ok hcheck
      have hshort := lineTake_le (b :: bs)
      have hpos := lineTake_pos (List.cons_ne_nil b bs)
      have hsplit := List.take_append_drop (lineTake (b :: bs)) (b :: bs)
      have hrest : r.stream = (b :: bs).take (lineTake (b :: bs)) ++
          SinkReader.stream { r' with buffer := (b :: bs).drop (lineTake (b :: bs)) } := by
        rw [hstream, SinkReader.stream, ← List.append_assoc, hsplit]
      have hless : SinkReader.size { r' with buffer := (b :: bs).drop (lineTake (b :: bs)) } < r.size := by
        simp only [SinkReader.size, List.length_drop] at hsize ⊢
        omega
      have htaken : ((b :: bs).take (lineTake (b :: bs))).length = lineTake (b :: bs) := by
        rw [List.length_take, Nat.min_eq_left hshort]
      simp only [hcheck]
      rcases take_lineTake (b :: bs) with ⟨text, htext, htake⟩ | ⟨hmem, hall⟩
      · -- the line ends in the buffer
        rw [htake] at hrest htaken ⊢
        rw [List.length_append, List.length_singleton] at htaken
        have hlast : (line ++ (text ++ [newline])).getLast? = some newline := by
          rw [← List.append_assoc, List.getLast?_concat]
        rw [if_pos hlast]
        refine .inr (.inl ⟨_, _, rfl, .whole htext ?_ (by omega) hreads hless⟩)
        rw [hrest, List.append_assoc, List.singleton_append]
      · have htake : (b :: bs).take (lineTake (b :: bs)) = b :: bs := by rw [hall, List.take_length]
        rw [htake] at hrest htaken ⊢
        have hlast : (line ++ (b :: bs)).getLast? ≠ some newline := by
          intro hlast
          rcases List.mem_append.mp (List.mem_of_getLast? hlast) with hin | hin
          · exact hnone hin
          · exact hmem hin
        rw [if_neg hlast]
        refine .inr (.inr ⟨b :: bs, _, rfl, ⟨hrest, hmem, hreads, hless⟩, ?_⟩)
        rw [List.length_append, htaken]
        exact hle

def LineTurn.reader? : LineTurn → Option SinkReader
  | .goesOn _ r => some r
  | .answers (.ok (some (_, true))) r => some r
  | _ => none

theorem lineTurn_lt {line : List UInt8} {r r' : SinkReader} (h : (lineTurn spent limit line r).reader? = some r') :
    r'.size < r.size := by
  unfold lineTurn at h
  by_cases hspent : spent r.turn = true
  · rw [if_pos hspent] at h
    cases h
  rw [if_neg hspent] at h
  split at h
  · cases h
  · next hfill =>
    obtain rfl := Option.some.inj h
    exact (SinkReader.fillBuf_waiting hfill).2.2
  · cases h
  · next hfill =>
    by_cases hline : line = []
    · rw [if_pos hline] at h
      cases h
    · rw [if_neg hline] at h
      cases h
  · next b bs r₁ hfill =>
    obtain ⟨-, -, hsize⟩ := SinkReader.fillBuf_bytes hfill
    have hpos := lineTake_pos (List.cons_ne_nil b bs)
    have hshort := lineTake_le (b :: bs)
    have hless : SinkReader.size { r₁ with buffer := (b :: bs).drop (lineTake (b :: bs)) } < r.size := by
      simp only [SinkReader.size, List.length_drop] at hsize ⊢
      omega
    split at h
    · cases h
    · split at h
      · obtain rfl := Option.some.inj h
        exact hless
      · obtain rfl := Option.some.inj h
        exact hless

variable (spent limit)

/-- `read_sink_line`, where `line` was read before. It answers a line and whether a newline ends it, or nothing at
the end of the connection; and it does not return where the listed reads come to no answer. -/
def readSinkLine (line : List UInt8) (r : SinkReader) :
    Option (Except String (Option (List UInt8 × Bool)) × SinkReader) :=
  match hturn : lineTurn spent limit line r with
  | .waits => none
  | .answers result r' => some (result, r')
  | .goesOn line' r' =>
    have : r'.size < r.size := lineTurn_lt (congrArg LineTurn.reader? hturn)
    readSinkLine line' r'
termination_by r.size

variable {spent limit}

theorem readSinkLine_eq_some (hlimit : limit < 2 ^ 64) {line : List UInt8} {r r' : SinkReader}
    {result : Except String (Option (List UInt8 × Bool))} (hnone : newline ∉ line) (hlength : line.length ≤ limit)
    (h : readSinkLine spent limit line r = some (result, r')) : LineRead spent limit line r result r' := by
  fun_induction readSinkLine spent limit line r with
  | case1 => cases h
  | case2 line r result' r₁ hturn =>
    obtain ⟨rfl, rfl⟩ : result' = result ∧ r₁ = r' := by simpa using h
    rcases @lineTurn_cases spent limit hlimit line hnone hlength r with hwaits | ⟨_, _, hanswers, hread⟩ |
      ⟨_, _, hon, -, -⟩
    · rw [hwaits] at hturn
      cases hturn
    · rw [hanswers] at hturn
      cases hturn
      exact hread
    · rw [hon] at hturn
      cases hturn
  | case3 line r line' r₁ hturn hlt ih =>
    rcases @lineTurn_cases spent limit hlimit line hnone hlength r with hwaits | ⟨_, _, hanswers, -⟩ |
      ⟨bytes, _, hon, htook, hlength'⟩
    · rw [hwaits] at hturn
      cases hturn
    · rw [hanswers] at hturn
      cases hturn
    · rw [hon] at hturn
      cases hturn
      refine (ih ?_ hlength' h).before htook
      rw [List.mem_append, not_or]
      exact ⟨hnone, htook.noNewline⟩

theorem readSinkLine_lt {r r' : SinkReader} {line line' : List UInt8} {complete : Bool}
    (h : readSinkLine spent limit line r = some (.ok (some (line', complete)), r')) (hcomplete : complete ≠ false) :
    r'.size < r.size := by
  fun_induction readSinkLine spent limit line r with
  | case1 => cases h
  | case2 line r result r₁ hturn =>
    obtain ⟨rfl, rfl⟩ : result = .ok (some (line', complete)) ∧ r₁ = r' := by simpa using h
    refine lineTurn_lt ((congrArg LineTurn.reader? hturn).trans ?_)
    rw [Bool.eq_true_of_not_eq_false hcomplete]
    rfl
  | case3 line r line₁ r₁ hturn hlt ih => exact (ih h).trans hlt

theorem readSinkLine_whole (hlimit : limit < 2 ^ 64) {r r' : SinkReader} {line : List UInt8} {complete : Bool}
    (h : readSinkLine spent limit [] r = some (.ok (some (line, complete)), r')) (hcomplete : complete ≠ false) :
    WholeLine line ∧ line.length ≤ limit ∧ r.stream = line ++ r'.stream ∧ r'.reads <:+ r.reads := by
  generalize hresult : Except.ok (some (line, complete)) = result at h
  cases readSinkLine_eq_some hlimit List.not_mem_nil (Nat.zero_le _) h with
  | @whole text _ htext hstream hlength hreads _ =>
    obtain ⟨rfl, -⟩ : line = text ++ [newline] ∧ complete = true := by simpa using hresult
    refine ⟨⟨text, htext, rfl⟩, ?_, ?_, hreads⟩
    · rw [List.length_append, List.length_singleton]
      simp only [List.length_nil] at hlength
      omega
    · rw [hstream, List.append_assoc, List.singleton_append]
  | unfinished => simp [hcomplete] at hresult
  | closed => simp at hresult
  | overLong => simp at hresult
  | interrupted => simp at hresult

theorem readSinkLine_unfinished (hlimit : limit < 2 ^ 64) {r r' : SinkReader} {line : List UInt8}
    (h : readSinkLine spent limit [] r = some (.ok (some (line, false)), r')) :
    newline ∉ line ∧ line ≠ [] ∧ line.length ≤ limit ∧ r.stream = line := by
  generalize hresult : Except.ok (some (line, false)) = result at h
  cases readSinkLine_eq_some hlimit List.not_mem_nil (Nat.zero_le _) h with
  | unfinished hmem hne hlength =>
    obtain rfl : line = r.stream := by simpa using hresult
    exact ⟨hmem, hne, hlength, rfl⟩
  | whole => simp at hresult
  | closed => simp at hresult
  | overLong => simp at hresult
  | interrupted => simp at hresult

end line

/-! ## The loop -/

section run
variable (decode : List UInt8 → Except String EventEnvelope) (spent : ℕ → Bool) (maxLineBytes : ℕ)
  (faults : ℕ → Option (String × ℕ))

/-- The loop of `run_sink`, and the error it ends with; `faults` says how the writes fail. -/
def sinkLines (st : SinkState) (r : SinkReader) : Option (SinkState × Option String) :=
  match hread : readSinkLine spent maxLineBytes [] r with
  | none => none
  | some (.error error, _) => some (st, some ("sink event read failed: " ++ error))
  | some (.ok none, _) => some (st, none)
  | some (.ok (some (line, complete)), r') =>
    if hcomplete : complete = false then some ({ st with truncated := true }, none)
    else match decode line with
      | .error error => some (st, some ("sink event JSON failed: " ++ error))
      | .ok event =>
        match st.writer.writeRecord line (faults st.writer.events) with
        | (.error e, writer) => some ({ st with writer }, some ("sink bounded write failed: " ++ e.text))
        | (.ok (), writer) =>
          have : r'.size < r.size := readSinkLine_lt hread hcomplete
          sinkLines (st.count writer line event) r'
termination_by r.size

def sinkError (primary syncError : Option String) : Option String :=
  match primary, syncError.map ("sink final sync failed: " ++ ·) with
  | some primary, some sync => some (primary ++ "; " ++ sync)
  | some primary, none => some primary
  | none, sync => sync

/-- `run_sink`: the outcome and the file, where the run ends. -/
def runSinkOn (limits : RecordingLimits) (accepted : Except String SinkReader) (syncError : Option String) :
    Option (SinkOutcome × List UInt8) :=
  let start : SinkState := ⟨.new limits, 0, 0, none, none, false⟩
  let ended :=
    match accepted with
    | .error error => some (start, some error)
    | .ok r => sinkLines decode spent maxLineBytes faults start r
  ended.map fun (st, primary) =>
    (⟨st.events, st.bytes, st.firstFrame, st.lastFrame, st.truncated, sinkError primary syncError⟩, st.writer.file)

/-! ## What is written -/

/-- The writer cannot take one more line. -/
inductive LimitExceeded (limits : RecordingLimits) (lines : List (List UInt8)) (line : List UInt8) :
    RecordError → Prop
  | line : limits.maxLineBytes < line.length → LimitExceeded limits lines line (.lineLimit limits.maxLineBytes)
  | events : limits.maxEvents < lines.length + 1 → LimitExceeded limits lines line (.eventLimit limits.maxEvents)
  | bytes : limits.maxBytes < lines.flatten.length + line.length →
      LimitExceeded limits lines line (.byteLimit limits.maxBytes)

/-- Why the sink ends after `lines`: what the stream goes on with, whether the outcome says that it is truncated,
and the error. -/
inductive SinkStops (limits : RecordingLimits) (reads : List SocketRead) (lines : List (List UInt8)) :
    List UInt8 → Bool → Option String → Prop
  | ended : SinkStops limits reads lines [] false none
  | unfinished {rest} : rest ≠ [] → newline ∉ rest → rest.length ≤ maxLineBytes →
      SinkStops limits reads lines rest true none
  | overLong {rest error} : error = "sink line exceeds admitted limit" ∨ error = "sink line overflow" →
      maxLineBytes < lineTake rest →
      SinkStops limits reads lines rest false (some ("sink event read failed: " ++ error))
  | invalid {line more error} : WholeLine line → decode line = .error error →
      SinkStops limits reads lines (line ++ more) false (some ("sink event JSON failed: " ++ error))
  | limit {line more e} : WholeLine line → LimitExceeded limits lines line e →
      SinkStops limits reads lines (line ++ more) false (some ("sink bounded write failed: " ++ e.text))
  | interrupted {rest error} : Interrupted spent reads error →
      SinkStops limits reads lines rest false (some ("sink event read failed: " ++ error))

structure SinkKept (limits : RecordingLimits) (lines : List (List UInt8)) (st : SinkState) : Prop where
  writerLimits : st.writer.limits = limits
  file : st.writer.file = lines.flatten
  writerEvents : st.writer.events = lines.length
  writerBytes : st.writer.bytes = lines.flatten.length
  events : st.events = lines.length
  bytes : st.bytes = lines.flatten.length
  whole : ∀ line ∈ lines, WholeLine line ∧ line.length ≤ maxLineBytes ∧ line.length ≤ limits.maxLineBytes ∧
    ∃ event, decode line = .ok event
  records : lines.length ≤ limits.maxEvents
  total : lines.flatten.length ≤ limits.maxBytes

/-- What a run has done: it wrote `lines` of the stream, and left `rest` with the error `primary`. -/
structure SinkFile (limits : RecordingLimits) (r : SinkReader) (lines : List (List UInt8)) (rest : List UInt8)
    (primary : Option String) (outcome : SinkOutcome) (file : List UInt8) : Prop where
  stream : r.stream = lines.flatten ++ rest
  whole : ∀ line ∈ lines, WholeLine line ∧ line.length ≤ maxLineBytes ∧ ∃ event, decode line = .ok event
  stops : SinkStops decode spent maxLineBytes limits r.reads lines rest outcome.truncated primary
  truncated : outcome.truncated = true ↔ primary = none ∧ rest ≠ []
  written : file = lines.flatten
  events : outcome.events = lines.length
  bytes : outcome.bytes = file.length

/-- The file is read to `lines`, whatever its reads are, and the validator does not stop at a limit in it. -/
structure Reread (limits : RecordingLimits) (lines : List (List UInt8)) (file : List UInt8) : Prop where
  found : ∀ eventFile : EventFile, eventFile.bytes = file → eventFile.fault = none →
    ∃ r, readLines limits 1 (EventReader.new eventFile) = .ok (lines, [], r) ∧ r.physicalBytes = file.length
  validated : ∀ (decode : List UInt8 → Except String EventEnvelope) (sha256 : List UInt8 → String)
    (eventFile : EventFile) (registry : EventContractRegistry) (spec : EventValidationSpec)
    (anchor : Option ObservationStartFacts) (observationClasses : List String),
    eventFile.bytes = file → eventFile.fault = none → spec.limits = limits →
    NoLimit (validateEventStreamAtStart decode sha256 eventFile registry spec anchor observationClasses) ∧
      ∀ report, validateEventStreamAtStart decode sha256 eventFile registry spec anchor observationClasses = .ok report →
        report.physicalBytes = file.length ∧ report.completeBytes = file.length ∧ report.records = lines.length

variable {decode spent maxLineBytes faults} {limits : RecordingLimits} {lines : List (List UInt8)} {st : SinkState}
  {line : List UInt8}

theorem SinkStops.mono {reads reads' : List SocketRead} {rest : List UInt8} {truncated : Bool}
    {primary : Option String} (h : SinkStops decode spent maxLineBytes limits reads lines rest truncated primary)
    (hreads : reads <:+ reads') : SinkStops decode spent maxLineBytes limits reads' lines rest truncated primary := by
  cases h with
  | ended => exact .ended
  | unfinished hne hmem hlength => exact .unfinished hne hmem hlength
  | overLong herror hlength => exact .overLong herror hlength
  | invalid hwhole herror => exact .invalid hwhole herror
  | limit hwhole hlimit => exact .limit hwhole hlimit
  | interrupted h => exact .interrupted (h.mono hreads)

theorem checkRecord_errors (hfits : LimitsFit limits) (hkept : SinkKept decode maxLineBytes limits lines st)
    (hwhole : WholeLine line) : ErrorsIn (LimitExceeded limits lines line) (st.writer.checkRecord line) := by
  obtain ⟨text, htext, rfl⟩ := hwhole
  have hevents := hfits.events
  have hbytes := hfits.bytes
  unfold BoundedEventWriter.checkRecord
  rw [hkept.writerLimits, hkept.writerEvents, hkept.writerBytes]
  refine errorsIn_require_bind (fun hnot => absurd ?_ hnot) fun _ => ?_
  · rw [List.getLast?_concat, List.dropLast_concat]
    exact ⟨rfl, htext⟩
  refine errorsIn_require_bind (fun hlong => .line (Nat.lt_of_not_le hlong)) fun _ => ?_
  refine errorsIn_orError_bind (fun hnone => .events ?_) fun count hcount => ?_
  · exact hevents.trans_le (checkedAdd_eq_none.mp hnone)
  obtain ⟨-, rfl⟩ := checkedAdd_eq_some.mp hcount
  refine errorsIn_require_bind (fun hmany => .events (Nat.lt_of_not_le hmany)) fun _ => ?_
  refine errorsIn_orError_bind (fun hnone => .bytes ?_) fun total htotal => ?_
  · exact hbytes.trans_le (checkedAdd_eq_none.mp hnone)
  obtain ⟨-, rfl⟩ := checkedAdd_eq_some.mp htotal
  exact errorsIn_require_bind (fun hmuch => .bytes (Nat.lt_of_not_le hmuch)) fun _ => errorsIn_ok _

theorem SinkKept.next (hfits : LimitsFit limits) (hkept : SinkKept decode maxLineBytes limits lines st)
    (hwhole : WholeLine line) (hline : line.length ≤ maxLineBytes) {event : EventEnvelope}
    (hevent : decode line = .ok event) {counts : ℕ × ℕ} (hcheck : st.writer.checkRecord line = .ok counts) :
    SinkKept decode maxLineBytes limits (lines ++ [line]) (st.count { st.writer with
      file := st.writer.file ++ line, events := counts.1, bytes := counts.2 } line event) := by
  have hevents := hfits.events
  have hbytes := hfits.bytes
  unfold BoundedEventWriter.checkRecord at hcheck
  simp only [bind_eq_ok, require_eq_ok, orError_eq_ok, exists_const, checkedAdd_eq_some, hkept.writerLimits,
    hkept.writerEvents, hkept.writerBytes] at hcheck
  obtain ⟨-, hlimit, _, ⟨-, rfl⟩, hrecords, _, ⟨-, rfl⟩, htotal, hcounts⟩ := hcheck
  obtain rfl := Except.ok.inj hcounts
  have hlength : (lines ++ [line]).length = lines.length + 1 := List.length_append
  have hflatten : (lines ++ [line]).flatten = lines.flatten ++ line := by simp
  refine ⟨hkept.writerLimits, ?_, ?_, ?_, ?_, ?_, ?_, ?_, ?_⟩
  · rw [hflatten, ← hkept.file]
    rfl
  · rw [hlength]
    rfl
  · rw [hflatten, List.length_append]
    rfl
  · rw [hlength]
    simp only [SinkState.count, saturatingAdd, hkept.events]
    omega
  · rw [hflatten, List.length_append]
    simp only [SinkState.count, saturatingAdd, hkept.bytes]
    omega
  · intro line' hmem
    rcases List.mem_append.mp hmem with hmem | hmem
    · exact hkept.whole line' hmem
    · obtain rfl := List.mem_singleton.mp hmem
      exact ⟨hwhole, hline, hlimit, event, hevent⟩
  · rw [hlength]
    exact hrecords
  · rw [hflatten, List.length_append]
    exact htotal

/-- Where no write fails, the loop takes the first lines of the stream, and says why it takes no more. -/
theorem sinkLines_kept (hfits : LimitsFit limits) (hlimit : maxLineBytes < 2 ^ 64) (hfaults : ∀ n, faults n = none)
    {st' : SinkState} {r : SinkReader} {primary : Option String}
    (hkept : SinkKept decode maxLineBytes limits lines st) (htruncated : st.truncated = false)
    (h : sinkLines decode spent maxLineBytes faults st r = some (st', primary)) :
    ∃ more rest, r.stream = more.flatten ++ rest ∧ SinkKept decode maxLineBytes limits (lines ++ more) st' ∧
      SinkStops decode spent maxLineBytes limits r.reads (lines ++ more) rest st'.truncated primary := by
  fun_induction sinkLines decode spent maxLineBytes faults st r generalizing lines with
  | case1 => cases h
  | case2 st r error r' hread =>
    obtain ⟨rfl, rfl⟩ : st = st' ∧ some ("sink event read failed: " ++ error) = primary := by simpa using h
    refine ⟨[], r.stream, rfl, by rwa [List.append_nil], ?_⟩
    rw [htruncated, List.append_nil]
    cases readSinkLine_eq_some hlimit List.not_mem_nil (Nat.zero_le _) hread with
    | overLong herror hlong =>
      rw [List.length_nil, Nat.zero_add] at hlong
      exact .overLong herror hlong
    | interrupted hinterrupted => exact .interrupted hinterrupted
  | case3 st r r' hread =>
    obtain ⟨rfl, rfl⟩ : st = st' ∧ none = primary := by simpa using h
    cases readSinkLine_eq_some hlimit List.not_mem_nil (Nat.zero_le _) hread with
    | closed _ hstream =>
      refine ⟨[], [], hstream, by rwa [List.append_nil], ?_⟩
      rw [htruncated]
      exact .ended
  | case4 st r line r' hread =>
    obtain ⟨rfl, rfl⟩ : { st with truncated := true } = st' ∧ none = primary := by simpa using h
    obtain ⟨hmem, hne, hlength, hstream⟩ := readSinkLine_unfinished hlimit hread
    refine ⟨[], line, hstream, ?_, .unfinished hne hmem hlength⟩
    rw [List.append_nil]
    exact ⟨hkept.writerLimits, hkept.file, hkept.writerEvents, hkept.writerBytes, hkept.events, hkept.bytes,
      hkept.whole, hkept.records, hkept.total⟩
  | case5 st r line complete r' hread hcomplete error herror =>
    obtain ⟨rfl, rfl⟩ : st = st' ∧ some ("sink event JSON failed: " ++ error) = primary := by simpa using h
    obtain ⟨hwhole, -, hstream, -⟩ := readSinkLine_whole hlimit hread hcomplete
    refine ⟨[], line ++ r'.stream, hstream, by rwa [List.append_nil], ?_⟩
    rw [htruncated]
    exact .invalid hwhole herror
  | case6 st r line complete r' hread hcomplete event hevent e writer hwrite =>
    obtain ⟨rfl, rfl⟩ : { st with writer } = st' ∧ some ("sink bounded write failed: " ++ e.text) = primary := by
      simpa using h
    obtain ⟨hwhole, -, hstream, -⟩ := readSinkLine_whole hlimit hread hcomplete
    obtain ⟨hcheck, rfl⟩ : st.writer.checkRecord line = .error e ∧ writer = st.writer := by
      unfold BoundedEventWriter.writeRecord at hwrite
      rw [hfaults] at hwrite
      split at hwrite
      · next hcheck =>
        obtain ⟨herror, rfl⟩ := Prod.mk.inj hwrite
        exact ⟨hcheck.trans (congrArg Except.error (Except.error.inj herror)), rfl⟩
      · cases (Prod.mk.inj hwrite).1
    refine ⟨[], line ++ r'.stream, hstream, by rwa [List.append_nil], ?_⟩
    rw [List.append_nil]
    show SinkStops _ _ _ _ _ _ _ st.truncated _
    rw [htruncated]
    exact .limit hwhole (checkRecord_errors hfits hkept hwhole e hcheck)
  | case7 st r line complete r' hread hcomplete event hevent writer hwrite hlt ih =>
    obtain ⟨hwhole, hlength, hstream, hreads⟩ := readSinkLine_whole hlimit hread hcomplete
    obtain ⟨counts, hcheck, rfl⟩ : ∃ counts, st.writer.checkRecord line = .ok counts ∧
        writer = { st.writer with file := st.writer.file ++ line, events := counts.1, bytes := counts.2 } := by
      unfold BoundedEventWriter.writeRecord at hwrite
      rw [hfaults] at hwrite
      split at hwrite
      · cases (Prod.mk.inj hwrite).1
      · next hcheck => exact ⟨_, hcheck, (Prod.mk.inj hwrite).2.symm⟩
    obtain ⟨more, rest, hmore, hkept', hstops⟩ := ih (hkept.next hfits hwhole hlength hevent hcheck) htruncated h
    rw [List.append_assoc, List.singleton_append] at hkept' hstops
    refine ⟨line :: more, rest, ?_, hkept', hstops.mono hreads⟩
    rw [hstream, hmore, List.flatten_cons, List.append_assoc]

/-! ## The file -/

theorem SinkKept.start : SinkKept decode maxLineBytes limits [] ⟨.new limits, 0, 0, none, none, false⟩ :=
  ⟨rfl, rfl, rfl, rfl, rfl, rfl, nofun, Nat.zero_le _, Nat.zero_le _⟩

theorem SinkKept.fitLines (hkept : SinkKept decode maxLineBytes limits lines st) : FitLines limits lines [] :=
  ⟨fun line hmem => ⟨(hkept.whole line hmem).1, (hkept.whole line hmem).2.2.1⟩, List.not_mem_nil, Nat.zero_le _⟩

theorem SinkKept.reread (hfits : LimitsFit limits) (hkept : SinkKept decode maxLineBytes limits lines st) :
    Reread limits lines lines.flatten where
  found := by
    intro eventFile hbytes hfault
    have hremaining : (EventReader.new eventFile).remaining = lines.flatten ++ [] := by
      rw [List.append_nil, ← hbytes]
      rfl
    have htotal : (EventReader.new eventFile).physicalBytes + (lines.flatten ++ []).length ≤ limits.maxBytes := by
      rw [List.append_nil]
      show 0 + _ ≤ _
      have htotal := hkept.total
      omega
    obtain ⟨r, hread, hconsumed⟩ := @readLines_of_fit limits 1 _ hfits lines [] hfault hremaining hkept.fitLines htotal
    refine ⟨r, hread, ?_⟩
    rw [hconsumed.physicalBytes, List.append_nil]
    exact Nat.zero_add _
  validated := by
    intro decode' sha256 eventFile registry spec anchor observationClasses hbytes hfault hspec
    subst hspec
    refine ⟨validateEventStreamAtStart_noLimit hfits hfault hbytes hkept.fitLines hkept.total hkept.records, ?_⟩
    intro report hreport
    obtain ⟨lines', rest, hbytes', hfit, hphysical, hcomplete, hrecords⟩ := report_bytes hfits hreport
    rw [hbytes, ← List.append_nil lines.flatten] at hbytes'
    obtain ⟨rfl, rfl⟩ := lines_unique (fun line hmem => (hkept.whole line hmem).1) List.not_mem_nil
      (fun line hmem => (hfit.whole line hmem).1) hfit.rest.1 hbytes'
    exact ⟨hphysical.trans hcomplete, hcomplete, hrecords⟩

theorem runSinkOn_file (hfits : LimitsFit limits) (hlimit : maxLineBytes < 2 ^ 64) (hfaults : ∀ n, faults n = none)
    {r : SinkReader} {syncError : Option String} {outcome : SinkOutcome} {file : List UInt8}
    (h : runSinkOn decode spent maxLineBytes faults limits (.ok r) syncError = some (outcome, file)) :
    ∃ lines rest primary, SinkFile decode spent maxLineBytes limits r lines rest primary outcome file ∧
      outcome.error = sinkError primary syncError ∧ Reread limits lines file := by
  unfold runSinkOn at h
  obtain ⟨⟨st, primary⟩, hended, hresult⟩ := Option.map_eq_some_iff.mp h
  obtain ⟨rfl, rfl⟩ := Prod.mk.inj hresult
  obtain ⟨lines, rest, hstream, hkept, hstops⟩ := sinkLines_kept hfits hlimit hfaults SinkKept.start rfl hended
  rw [List.nil_append] at hkept hstops
  refine ⟨lines, rest, primary, ?_, rfl, hkept.file ▸ hkept.reread hfits⟩
  exact {
    stream := hstream
    whole := fun line hmem => ⟨(hkept.whole line hmem).1, (hkept.whole line hmem).2.1, (hkept.whole line hmem).2.2.2⟩
    stops := hstops
    truncated := by
      show st.truncated = true ↔ _
      generalize st.truncated = truncated at hstops
      cases hstops <;> simp_all
    written := hkept.file
    events := hkept.events
    bytes := hkept.bytes.trans (congrArg List.length hkept.file).symm }

variable (decode spent maxLineBytes faults limits)

/-- The sink writes whole lines, those at the front of its stream up to the one where it stops, and counts them; the
file is read to these lines under the same limits. Of any file, a line is read or refused whatever the buffer holds,
and all its bytes are those of the whole lines and of what is left. -/
theorem sink_file_reread (hfits : LimitsFit limits) (hlimit : maxLineBytes < 2 ^ 64)
    (hfaults : ∀ n, faults n = none) :
    (∀ r syncError outcome file,
      runSinkOn decode spent maxLineBytes faults limits (.ok r) syncError = some (outcome, file) →
      ∃ lines rest primary, SinkFile decode spent maxLineBytes limits r lines rest primary outcome file ∧
        outcome.error = sinkError primary syncError ∧ Reread limits lines file) ∧
    (∀ error syncError outcome file,
      runSinkOn decode spent maxLineBytes faults limits (.error error) syncError = some (outcome, file) →
      file = [] ∧ outcome.events = 0 ∧ outcome.bytes = 0 ∧ outcome.truncated = false ∧ Reread limits [] file) ∧
    (∀ lineNumber r₁ r₂, SameText r₁ r₂ → ReadAlike limits lineNumber r₁ r₂) ∧
    (∀ eventFile lines rest r, readLines limits 1 (EventReader.new eventFile) = .ok (lines, rest, r) →
      eventFile.bytes = lines.flatten ++ rest ∧ FitLines limits lines rest ∧
        r.physicalBytes = lines.flatten.length + rest.length) ∧
    ∀ sha256 eventFile registry (spec : EventValidationSpec) anchor observationClasses report, spec.limits = limits →
      validateEventStreamAtStart decode sha256 eventFile registry spec anchor observationClasses = .ok report →
      ∃ lines rest, eventFile.bytes = lines.flatten ++ rest ∧ FitLines limits lines rest ∧
        report.completeBytes = lines.flatten.length ∧ report.physicalBytes = report.completeBytes + rest.length := by
  refine ⟨fun r syncError outcome file h => runSinkOn_file hfits hlimit hfaults h, ?_, ?_, ?_, ?_⟩
  · intro error syncError outcome file h
    obtain ⟨rfl, rfl⟩ := Prod.mk.inj (Option.some.inj h)
    have hstart : SinkKept decode maxLineBytes limits [] _ := SinkKept.start
    exact ⟨rfl, rfl, rfl, rfl, hstart.reread hfits⟩
  · intro lineNumber r₁ r₂ hsame
    exact readBoundedLine_same hfits hsame
  · intro eventFile lines rest r h
    have hread := readLines_eq_ok h
    refine ⟨?_, hread.fit, ?_⟩
    · have hremaining := hread.consumed.remaining
      rw [hread.atEnd.remaining, List.append_nil] at hremaining
      exact hremaining
    · rw [hread.consumed.physicalBytes, List.length_append]
      exact Nat.zero_add _
  · intro sha256 eventFile registry spec anchor observationClasses report hspec h
    subst hspec
    obtain ⟨lines, rest, hbytes, hfit, hphysical, hcomplete, -⟩ := report_bytes hfits h
    exact ⟨lines, rest, hbytes, hfit, hcomplete, hphysical⟩

end run

/-! ## Two lines -/

def sampleLineLimits : RecordingLimits := ⟨10, 10, 6, 4, 1000, 100⟩

def sampleLineEvent : EventEnvelope := ⟨0, "frame_boundary", "", ⟨"frame", 7⟩, 7, .obj []⟩

def sampleConnection : SinkReader := ⟨[97], [.waiting, .bytes [10, 98], .waiting, .bytes []], 0⟩

theorem sampleLineLimits_fit : LimitsFit sampleLineLimits := ⟨by decide, by decide, by decide⟩

theorem sample_file_reread :
    ∃ lines, Reread sampleLineLimits lines [97, 10] ∧ lines.length = 1 := by
  have hrun : runSinkOn (fun _ => .ok sampleLineEvent) (fun _ => false) 4 (fun _ => none) sampleLineLimits
      (.ok sampleConnection) none = some (⟨1, 2, some 7, some 7, true, none⟩, [97, 10]) := by
    decide +kernel
  obtain ⟨lines, rest, primary, hfile, -, hreread⟩ := (sink_file_reread (fun _ => .ok sampleLineEvent) (fun _ => false)
    4 (fun _ => none) sampleLineLimits sampleLineLimits_fit (by decide) (fun _ => rfl)).1 _ _ _ _ hrun
  exact ⟨lines, hreread, hfile.events.symm⟩

def oneRead : EventFile := ⟨[[97, 98, 99, 10, 100, 101, 102, 103, 104, 10]], by decide, none⟩

def threeReads : EventFile := ⟨[[97, 98, 99, 10], [100, 101, 102], [103, 104, 10]], by decide, none⟩

/-- The buffer decides which limit is named; and a stream that ends within a line which is too long is not said to be
truncated. -/
theorem buffer_names_limit :
    (oneRead.bytes = threeReads.bytes ∧
      readLines sampleLineLimits 1 (EventReader.new oneRead) = .error (.lineLimit 2 4) ∧
      readLines sampleLineLimits 1 (EventReader.new threeReads) = .error (.byteLimit 6)) ∧
    (runSinkOn (fun _ => .ok sampleLineEvent) (fun _ => false) 4 (fun _ => none) sampleLineLimits
        (.ok ⟨[], [.bytes [97, 97, 97, 97, 97], .bytes []], 0⟩) none).map (fun run => run.1.truncated) =
      some false := by
  refine ⟨⟨rfl, ?_, ?_⟩, ?_⟩
  · decide +kernel
  · decide +kernel
  · decide +kernel

end Emucap.Live
