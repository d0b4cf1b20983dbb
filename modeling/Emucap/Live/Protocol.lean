import Mathlib.Data.List.TakeWhile
import Mathlib.Tactic.SplitIfs

/-!
# NDJSON framing

The two readers of newline-terminated frames (`live/protocol.rs`) keep the bytes of an unfinished frame in `pending`.
`framing` says what a stream means, and `ndjson_framing` that every run over every cut of it delivers that.
-/

namespace Emucap.Live

/-! ## The reader of a connection -/

inductive ReadErrorKind where
  | wouldBlock
  | timedOut
  | unexpectedEof
  | invalidData
  deriving DecidableEq

structure ReadError where
  kind : ReadErrorKind
  message : String
  deriving DecidableEq

/-- What one read of the connection gives: some bytes, or a timeout under either of its names. -/
inductive Arrival where
  | bytes (first : UInt8) (rest : List UInt8)
  | timedOut
  | wouldBlock
  deriving DecidableEq

def Arrival.payload : Arrival → List UInt8
  | .bytes first rest => first :: rest
  | .timedOut | .wouldBlock => []

/-- A buffered reader; the stream ends after the last arrival. -/
structure Reader where
  buffer : List UInt8
  arrivals : List Arrival
  deriving DecidableEq

namespace Reader

def stream (r : Reader) : List UInt8 := r.buffer ++ r.arrivals.flatMap Arrival.payload

def size (r : Reader) : ℕ := r.stream.length + r.arrivals.length

/-- `fill_buf`: what is buffered, or else what the next read gives. No bytes mean the end of the stream. -/
def fillBuf : Reader → Except ReadError (List UInt8) × Reader
  | ⟨b :: bs, arrivals⟩ => (.ok (b :: bs), ⟨b :: bs, arrivals⟩)
  | ⟨[], []⟩ => (.ok [], ⟨[], []⟩)
  | ⟨[], .bytes first rest :: arrivals⟩ => (.ok (first :: rest), ⟨first :: rest, arrivals⟩)
  | ⟨[], .timedOut :: arrivals⟩ => (.error ⟨.timedOut, "timed out"⟩, ⟨[], arrivals⟩)
  | ⟨[], .wouldBlock :: arrivals⟩ => (.error ⟨.wouldBlock, "operation would block"⟩, ⟨[], arrivals⟩)

def consume (r : Reader) (count : ℕ) : Reader := { r with buffer := r.buffer.drop count }

theorem fillBuf_cases (r : Reader) :
    (∃ r', r.fillBuf = (.ok r'.buffer, r') ∧ r'.buffer ≠ [] ∧ r'.stream = r.stream ∧
      r'.arrivals.length ≤ r.arrivals.length) ∨
    (r.fillBuf = (.ok [], r) ∧ r.stream = []) ∨
    (∃ e r', r.fillBuf = (.error e, r') ∧ (e.kind = .wouldBlock ∨ e.kind = .timedOut) ∧ r'.stream = r.stream ∧
      r'.arrivals.length + 1 = r.arrivals.length) := by
  obtain ⟨_ | ⟨b, bs⟩, arrivals⟩ := r
  · cases arrivals with
    | nil => exact .inr (.inl ⟨rfl, rfl⟩)
    | cons arrival arrivals =>
      cases arrival with
      | bytes first rest =>
        exact .inl ⟨⟨first :: rest, arrivals⟩, rfl, List.cons_ne_nil _ _, rfl, Nat.le_succ _⟩
      | timedOut => exact .inr (.inr ⟨_, ⟨[], arrivals⟩, rfl, .inr rfl, rfl, rfl⟩)
      | wouldBlock => exact .inr (.inr ⟨_, ⟨[], arrivals⟩, rfl, .inl rfl, rfl, rfl⟩)
  · exact .inl ⟨⟨b :: bs, arrivals⟩, rfl, List.cons_ne_nil _ _, rfl, Nat.le_refl _⟩

end Reader

/-! ## One part of a frame -/

structure Conn where
  reader : Reader
  pending : List UInt8
  deriving DecidableEq

abbrev ReadResult := Except ReadError (Option String)

structure FrameErrors where
  truncated : ReadError
  tooLarge : ReadError
  notUtf8 : List UInt8 → ReadError

/-- What the body of a reader comes to: a result, or a part of a frame that is not whole. -/
inductive Part where
  | done (result : ReadResult) (conn : Conn)
  | more (conn : Conn)

def lineFeed : UInt8 := 10

def fromUtf8 (bytes : List UInt8) : Option String := String.fromUTF8? ⟨bytes.toArray⟩

/-- The body that the readers share. The size is checked before anything is taken from the buffer; lengths of
slices do not come near `usize::MAX`, so that the saturating sum is the sum. -/
def readPart (errors : FrameErrors) (maxPayloadBytes : ℕ) (conn : Conn) : Part :=
  match conn.reader.fillBuf with
  | (.error e, reader) => .done (.error e) ⟨reader, conn.pending⟩
  | (.ok [], reader) =>
    if conn.pending = [] then .done (.ok none) ⟨reader, conn.pending⟩
    else .done (.error errors.truncated) ⟨reader, conn.pending⟩
  | (.ok (b :: bs), reader) =>
    let available := b :: bs
    let newline := available.findIdx? (· == lineFeed)
    let payloadPart := newline.getD available.length
    if maxPayloadBytes < conn.pending.length + payloadPart then
      .done (.error errors.tooLarge) ⟨reader, conn.pending⟩
    else
      let consumed := newline.elim available.length (· + 1)
      let pending := conn.pending ++ available.take consumed
      let reader := reader.consume consumed
      if newline.isSome then
        match fromUtf8 pending with
        | some frame => .done (.ok (some frame)) ⟨reader, []⟩
        | none => .done (.error (errors.notUtf8 pending)) ⟨reader, []⟩
      else .more ⟨reader, pending⟩

def Conn.unread (conn : Conn) : List UInt8 := conn.pending ++ conn.reader.stream

/-- `pending` is the beginning of a piece that has not ended and is not too long. -/
structure Conn.Held (maxPayloadBytes : ℕ) (conn : Conn) : Prop where
  unfinished : lineFeed ∉ conn.pending
  bounded : conn.pending.length ≤ maxPayloadBytes

theorem Conn.Held.of_pending_nil {maxPayloadBytes : ℕ} {conn : Conn} (h : conn.pending = []) :
    conn.Held maxPayloadBytes := by
  refine ⟨?_, ?_⟩
  · rw [h]
    exact List.not_mem_nil
  · rw [h]
    exact Nat.zero_le _

/-- The connection has gone on without delivering anything. -/
structure Conn.Step (maxPayloadBytes : ℕ) (conn conn' : Conn) : Prop where
  held : conn'.Held maxPayloadBytes
  unread : conn'.unread = conn.unread
  size : conn'.reader.size < conn.reader.size

inductive PartSpec (errors : FrameErrors) (maxPayloadBytes : ℕ) (conn : Conn) : Part → Prop
  | retry {e : ReadError} {conn' : Conn} : e.kind = .wouldBlock ∨ e.kind = .timedOut →
      conn.Step maxPayloadBytes conn' → PartSpec errors maxPayloadBytes conn (.done (.error e) conn')
  | more {conn' : Conn} : conn.Step maxPayloadBytes conn' → PartSpec errors maxPayloadBytes conn (.more conn')
  | ended {conn' : Conn} : conn.unread = [] → PartSpec errors maxPayloadBytes conn (.done (.ok none) conn')
  | truncated {conn' : Conn} : conn.unread ≠ [] → lineFeed ∉ conn.unread →
      conn.unread.length ≤ maxPayloadBytes →
      PartSpec errors maxPayloadBytes conn (.done (.error errors.truncated) conn')
  | tooLarge {conn' : Conn} {piece rest : List UInt8} : conn.unread = piece ++ rest → lineFeed ∉ piece →
      maxPayloadBytes < piece.length → PartSpec errors maxPayloadBytes conn (.done (.error errors.tooLarge) conn')
  | notUtf8 {reader : Reader} {piece : List UInt8} : conn.unread = piece ++ lineFeed :: reader.stream →
      lineFeed ∉ piece → piece.length ≤ maxPayloadBytes → fromUtf8 (piece ++ [lineFeed]) = none →
      PartSpec errors maxPayloadBytes conn (.done (.error (errors.notUtf8 (piece ++ [lineFeed]))) ⟨reader, []⟩)
  | frame {reader : Reader} {piece : List UInt8} {text : String} :
      conn.unread = piece ++ lineFeed :: reader.stream → lineFeed ∉ piece → piece.length ≤ maxPayloadBytes →
      fromUtf8 (piece ++ [lineFeed]) = some text → reader.size < conn.reader.size →
      PartSpec errors maxPayloadBytes conn (.done (.ok (some text)) ⟨reader, []⟩)

theorem findIdx?_lineFeed {available : List UInt8} {n : ℕ}
    (h : available.findIdx? (· == lineFeed) = some n) :
    ∃ piece rest, available = piece ++ lineFeed :: rest ∧ lineFeed ∉ piece ∧ piece.length = n := by
  induction available generalizing n with
  | nil => simp at h
  | cons b bs ih =>
    rw [List.findIdx?_cons] at h
    by_cases hb : b = lineFeed
    · subst hb
      obtain rfl : 0 = n := by simpa using h
      exact ⟨[], bs, rfl, List.not_mem_nil, rfl⟩
    · rw [if_neg (by simpa using hb)] at h
      obtain ⟨m, hm, rfl⟩ := Option.map_eq_some_iff.mp h
      obtain ⟨piece, rest, rfl, hpiece, rfl⟩ := ih hm
      refine ⟨b :: piece, rest, rfl, ?_, rfl⟩
      rw [List.mem_cons, not_or]
      exact ⟨Ne.symm hb, hpiece⟩

theorem readPart_spec {errors : FrameErrors} {maxPayloadBytes : ℕ} {conn : Conn}
    (hheld : conn.Held maxPayloadBytes) :
    PartSpec errors maxPayloadBytes conn (readPart errors maxPayloadBytes conn) := by
  unfold readPart
  rcases conn.reader.fillBuf_cases with ⟨r, hfill, hne, hstream, hlen⟩ | ⟨hfill, hstream⟩ |
    ⟨e, r, hfill, hkind, hstream, hlen⟩
  · rw [hfill]
    obtain ⟨_ | ⟨b, bs⟩, arrivals⟩ := r
    · exact absurd rfl hne
    have hunread : conn.unread = conn.pending ++ ((b :: bs) ++ arrivals.flatMap Arrival.payload) := by
      rw [Conn.unread, ← hstream]
      rfl
    have hsize : (b :: bs).length + (arrivals.flatMap Arrival.payload).length + arrivals.length ≤
        conn.reader.size := by
      rw [Reader.size, ← hstream, Reader.stream, List.length_append]
      exact Nat.add_le_add_left hlen _
    simp only
    generalize hbuffer : b :: bs = available at *
    rcases hfind : available.findIdx? (· == lineFeed) with _ | n
    · have hnone : lineFeed ∉ available := by
        intro hmem
        have h := List.findIdx?_eq_none_iff.mp hfind lineFeed hmem
        simp at h
      have hpiece : lineFeed ∉ conn.pending ++ available := by
        rw [List.mem_append, not_or]
        exact ⟨hheld.unfinished, hnone⟩
      have hpos : 0 < available.length := by
        rw [← hbuffer]
        exact Nat.succ_pos _
      simp only [Option.getD_none, Option.elim_none, Option.isSome_none, List.take_length, Bool.false_eq_true,
        if_false]
      split_ifs with hlarge
      · have hcut : conn.unread = (conn.pending ++ available) ++ arrivals.flatMap Arrival.payload := by
          rw [hunread, List.append_assoc]
        refine .tooLarge hcut hpiece ?_
        rw [List.length_append]
        exact hlarge
      · refine .more ⟨⟨hpiece, ?_⟩, ?_, ?_⟩
        · rw [List.length_append]
          omega
        · rw [hunread, Conn.unread, Reader.consume, Reader.stream, List.drop_length]
          simp
        · rw [Reader.consume, Reader.size, Reader.stream, List.drop_length, List.nil_append]
          simp only
          omega
    · obtain ⟨piece, rest, rfl, hpiece, rfl⟩ := findIdx?_lineFeed hfind
      have hpending : lineFeed ∉ conn.pending ++ piece := by
        rw [List.mem_append, not_or]
        exact ⟨hheld.unfinished, hpiece⟩
      have htake : (piece ++ lineFeed :: rest).take (piece.length + 1) = piece ++ [lineFeed] := by
        rw [List.take_append, List.take_of_length_le (Nat.le_succ _), Nat.add_sub_cancel_left]
        rfl
      have hdrop : (piece ++ lineFeed :: rest).drop (piece.length + 1) = rest := by
        rw [List.drop_append, List.drop_eq_nil_of_le (Nat.le_succ _), Nat.add_sub_cancel_left]
        rfl
      simp only [Option.getD_some, Option.elim_some, Option.isSome_some, if_true, htake]
      have hcut : conn.unread = (conn.pending ++ piece) ++
          lineFeed :: (Reader.consume ⟨piece ++ lineFeed :: rest, arrivals⟩ (piece.length + 1)).stream := by
        rw [hunread, Reader.consume, Reader.stream, hdrop]
        simp
      have hless : (Reader.consume ⟨piece ++ lineFeed :: rest, arrivals⟩ (piece.length + 1)).size <
          conn.reader.size := by
        rw [Reader.consume, Reader.size, Reader.stream, hdrop]
        simp only [List.length_append, List.length_cons] at hsize ⊢
        omega
      split_ifs with hlarge
      · refine .tooLarge hcut hpending ?_
        rw [List.length_append]
        exact hlarge
      · have hbound : (conn.pending ++ piece).length ≤ maxPayloadBytes := by
          rw [List.length_append]
          omega
        rw [← List.append_assoc]
        rcases htext : fromUtf8 (conn.pending ++ piece ++ [lineFeed]) with _ | text
        · exact .notUtf8 hcut hpending hbound htext
        · exact .frame hcut hpending hbound htext hless
  · rw [hfill]
    have hunread : conn.unread = conn.pending := by
      rw [Conn.unread, hstream, List.append_nil]
    simp only
    split_ifs with hpending
    · exact .ended (hunread.trans hpending)
    · refine .truncated ?_ ?_ ?_
      · rwa [hunread]
      · rw [hunread]
        exact hheld.unfinished
      · rw [hunread]
        exact hheld.bounded
  · rw [hfill]
    refine .retry hkind ⟨⟨hheld.unfinished, hheld.bounded⟩, ?_, ?_⟩
    · rw [Conn.unread, Conn.unread, hstream]
    · rw [Reader.size, Reader.size, hstream]
      simp only
      omega

theorem size_lt_of_readPart_more {errors : FrameErrors} {maxPayloadBytes : ℕ} {conn conn' : Conn}
    (h : readPart errors maxPayloadBytes conn = .more conn') : conn'.reader.size < conn.reader.size := by
  unfold readPart at h
  rcases conn.reader.fillBuf_cases with ⟨r, hfill, hne, hstream, hlen⟩ | ⟨hfill, -⟩ | ⟨e, r, hfill, -⟩
  · rw [hfill] at h
    obtain ⟨_ | ⟨b, bs⟩, arrivals⟩ := r
    · exact absurd rfl hne
    simp only at h
    split_ifs at h with hlarge hsome
    · split at h <;> cases h
    · obtain rfl := Part.more.inj h
      rw [Bool.not_eq_true, Option.isSome_eq_false_iff, Option.isNone_iff_eq_none] at hsome
      have hsize : (b :: bs).length + (arrivals.flatMap Arrival.payload).length + arrivals.length ≤
          conn.reader.size := by
        rw [Reader.size, ← hstream, Reader.stream, List.length_append]
        exact Nat.add_le_add_left hlen _
      rw [hsome, Option.elim_none, Reader.consume, Reader.size, Reader.stream, List.drop_length, List.nil_append]
      simp only [List.length_cons] at hsize ⊢
      omega
  · rw [hfill] at h
    simp only at h
    split_ifs at h
  · rw [hfill] at h
    cases h

/-! ## The readers -/

section readers

variable (utf8Error : List UInt8 → String)

def frameErrors (maxPayloadBytes : ℕ) : FrameErrors where
  truncated := ⟨.unexpectedEof, "truncated NDJSON frame before newline"⟩
  tooLarge := ⟨.invalidData, "NDJSON frame exceeds " ++ toString maxPayloadBytes ++ " byte payload limit"⟩
  notUtf8 bytes := ⟨.invalidData, "NDJSON frame is not UTF-8: " ++ utf8Error bytes⟩

def chunkErrors : FrameErrors where
  truncated := ⟨.unexpectedEof, "truncated control frame"⟩
  tooLarge := ⟨.invalidData, "control frame too large"⟩
  notUtf8 bytes := ⟨.invalidData, utf8Error bytes⟩

def readNdjsonFrameWithLimit (maxPayloadBytes : ℕ) (conn : Conn) : ReadResult × Conn :=
  match h : readPart (frameErrors utf8Error maxPayloadBytes) maxPayloadBytes conn with
  | .done result conn => (result, conn)
  | .more conn' =>
    have : conn'.reader.size < conn.reader.size := size_lt_of_readPart_more h
    readNdjsonFrameWithLimit maxPayloadBytes conn'
termination_by conn.reader.size

def readNdjsonChunkWithLimit (maxPayloadBytes : ℕ) (conn : Conn) : ReadResult × Conn :=
  match readPart (chunkErrors utf8Error) maxPayloadBytes conn with
  | .done result conn => (result, conn)
  | .more conn => (.error ⟨.wouldBlock, "operation would block"⟩, conn)

/-- The choice of a reader for one call. -/
inductive ReadCall where
  | frame
  | chunk
  deriving DecidableEq

def ReadCall.read (maxPayloadBytes : ℕ) : ReadCall → Conn → ReadResult × Conn
  | .frame => readNdjsonFrameWithLimit utf8Error maxPayloadBytes
  | .chunk => readNdjsonChunkWithLimit utf8Error maxPayloadBytes

end readers

/-! ## What a stream means -/

/-- What a call tells its caller; a call that is to be repeated tells nothing. -/
inductive Delivery where
  | frame (text : String)
  | ended
  | failed (kind : ReadErrorKind)
  deriving DecidableEq

def delivery : ReadResult → Option Delivery
  | .ok (some text) => some (.frame text)
  | .ok none => some .ended
  | .error ⟨.wouldBlock, _⟩ | .error ⟨.timedOut, _⟩ => none
  | .error e => some (.failed e.kind)

/-- The newline-terminated pieces of a stream, up to the first piece that has more than `maxPayloadBytes` bytes
before its newline or the end of the stream, is not UTF-8 or is cut off by the end of the stream; and how it
ends there. -/
def framing (maxPayloadBytes : ℕ) (stream : List UInt8) : List Delivery :=
  if stream = [] then [.ended]
  else if maxPayloadBytes < (stream.takeWhile (· ≠ lineFeed)).length then [.failed .invalidData]
  else match h : stream.dropWhile (· ≠ lineFeed) with
    | [] => [.failed .unexpectedEof]
    | _ :: rest =>
      match fromUtf8 (stream.takeWhile (· ≠ lineFeed) ++ [lineFeed]) with
      | none => [.failed .invalidData]
      | some text => .frame text :: framing maxPayloadBytes rest
termination_by stream.length
decreasing_by
  have hlen := (List.dropWhile_suffix (p := (· ≠ lineFeed)) (l := stream)).length_le
  rw [h, List.length_cons] at hlen
  omega

section framing

variable {maxPayloadBytes : ℕ} {piece rest : List UInt8}

theorem ne_lineFeed_of_mem (h : lineFeed ∉ piece) : ∀ b ∈ piece, decide (b ≠ lineFeed) = true := by
  intro b hb
  exact decide_eq_true fun hlf => h (hlf ▸ hb)

theorem framing_nil : framing maxPayloadBytes [] = [.ended] := by
  unfold framing
  rfl

theorem framing_tooLarge (hpiece : lineFeed ∉ piece) (hlarge : maxPayloadBytes < piece.length) :
    framing maxPayloadBytes (piece ++ rest) = [.failed .invalidData] := by
  have hne : piece ++ rest ≠ [] := by
    intro hnil
    rw [(List.append_eq_nil_iff.mp hnil).1] at hlarge
    exact absurd hlarge (Nat.not_lt_zero _)
  have hlen : maxPayloadBytes < ((piece ++ rest).takeWhile (· ≠ lineFeed)).length := by
    rw [List.takeWhile_append_of_pos (ne_lineFeed_of_mem hpiece), List.length_append]
    omega
  unfold framing
  rw [if_neg hne, if_pos hlen]

theorem framing_truncated (hne : piece ≠ []) (hpiece : lineFeed ∉ piece) (hbound : piece.length ≤ maxPayloadBytes) :
    framing maxPayloadBytes piece = [.failed .unexpectedEof] := by
  have htake : piece.takeWhile (· ≠ lineFeed) = piece := List.takeWhile_eq_self_iff.mpr (ne_lineFeed_of_mem hpiece)
  have hdrop : piece.dropWhile (· ≠ lineFeed) = [] := List.dropWhile_eq_nil_iff.mpr (ne_lineFeed_of_mem hpiece)
  unfold framing
  rw [if_neg hne, htake, if_neg (Nat.not_lt.mpr hbound)]
  split
  · rfl
  · rename_i h
    rw [hdrop] at h
    cases h

theorem framing_piece (hpiece : lineFeed ∉ piece) (hbound : piece.length ≤ maxPayloadBytes) :
    framing maxPayloadBytes (piece ++ lineFeed :: rest) =
      match fromUtf8 (piece ++ [lineFeed]) with
      | none => [.failed .invalidData]
      | some text => .frame text :: framing maxPayloadBytes rest := by
  have htake : (piece ++ lineFeed :: rest).takeWhile (· ≠ lineFeed) = piece := by
    rw [List.takeWhile_append_of_pos (ne_lineFeed_of_mem hpiece)]
    simp
  have hdrop : (piece ++ lineFeed :: rest).dropWhile (· ≠ lineFeed) = lineFeed :: rest := by
    rw [List.dropWhile_append_of_pos (ne_lineFeed_of_mem hpiece)]
    simp
  rw [framing, if_neg (by simp), htake, if_neg (Nat.not_lt.mpr hbound)]
  split
  · rename_i h
    rw [hdrop] at h
    cases h
  · rename_i b rest' h
    rw [hdrop] at h
    obtain ⟨-, rfl⟩ := List.cons.inj h
    rfl

end framing

/-! ## What a call does -/

def utf8Bytes (text : String) : List UInt8 := text.toUTF8.data.toList

theorem utf8Bytes_of_fromUtf8 {bytes : List UInt8} {text : String} (h : fromUtf8 bytes = some text) :
    utf8Bytes text = bytes := by
  unfold fromUtf8 String.fromUTF8? at h
  split at h
  · obtain rfl := Option.some.inj h
    rfl
  · cases h

theorem Conn.Step.trans {maxPayloadBytes : ℕ} {conn conn' conn'' : Conn} (h : conn.Step maxPayloadBytes conn')
    (h' : conn'.Step maxPayloadBytes conn'') : conn.Step maxPayloadBytes conn'' :=
  ⟨h'.held, h'.unread.trans h.unread, Nat.lt_trans h'.size h.size⟩

/-- What a call can do: nothing that is delivered, deliver the next frame of the stream, or deliver how the
stream ends. -/
inductive CallSpec (maxPayloadBytes : ℕ) (conn : Conn) : ReadResult × Conn → Prop
  | again {result : ReadResult} {conn' : Conn} : delivery result = none → conn.Step maxPayloadBytes conn' →
      CallSpec maxPayloadBytes conn (result, conn')
  | frame {text : String} {conn' : Conn} : conn'.pending = [] → conn'.reader.size < conn.reader.size →
      conn.unread = utf8Bytes text ++ conn'.unread →
      framing maxPayloadBytes conn.unread = .frame text :: framing maxPayloadBytes conn'.unread →
      CallSpec maxPayloadBytes conn (.ok (some text), conn')
  | last {result : ReadResult} {conn' : Conn} {d : Delivery} : delivery result = some d →
      (∀ text, d ≠ .frame text) → framing maxPayloadBytes conn.unread = [d] →
      CallSpec maxPayloadBytes conn (result, conn')

theorem CallSpec.after {maxPayloadBytes : ℕ} {conn conn' : Conn} {out : ReadResult × Conn}
    (h : conn.Step maxPayloadBytes conn') (hcall : CallSpec maxPayloadBytes conn' out) :
    CallSpec maxPayloadBytes conn out := by
  cases hcall with
  | again hretry hstep => exact .again hretry (h.trans hstep)
  | frame hpending hsize hunread hframing =>
    refine .frame hpending (Nat.lt_trans hsize h.size) ?_ ?_
    · rw [← h.unread, hunread]
    · rw [← h.unread, hframing]
  | last hlast hnot hframing =>
    refine .last hlast hnot ?_
    rw [← h.unread, hframing]

/-- The errors have the kinds that the stream is said to end with. -/
structure FrameErrors.Kinds (errors : FrameErrors) : Prop where
  truncated : errors.truncated.kind = .unexpectedEof
  tooLarge : errors.tooLarge.kind = .invalidData
  notUtf8 : ∀ bytes, (errors.notUtf8 bytes).kind = .invalidData

theorem delivery_error {e : ReadError} {kind : ReadErrorKind} (h : e.kind = kind)
    (hkind : kind = .unexpectedEof ∨ kind = .invalidData) : delivery (.error e) = some (.failed kind) := by
  obtain ⟨k, message⟩ := e
  obtain rfl : k = kind := h
  rcases hkind with rfl | rfl
  · rfl
  · rfl

theorem delivery_retry {e : ReadError} (h : e.kind = .wouldBlock ∨ e.kind = .timedOut) :
    delivery (.error e) = none := by
  obtain ⟨k, message⟩ := e
  rcases h with h | h
  · obtain rfl : k = .wouldBlock := h
    rfl
  · obtain rfl : k = .timedOut := h
    rfl

/-- A part that comes to a result is a call with that result. -/
theorem PartSpec.callSpec {errors : FrameErrors} (hkinds : errors.Kinds) {maxPayloadBytes : ℕ}
    {conn conn' : Conn} {result : ReadResult} (h : PartSpec errors maxPayloadBytes conn (.done result conn')) :
    CallSpec maxPayloadBytes conn (result, conn') := by
  cases h with
  | retry hkind hstep => exact .again (delivery_retry hkind) hstep
  | ended hunread =>
    refine .last rfl (fun _ => by simp) ?_
    rw [hunread, framing_nil]
  | truncated hne hpiece hbound =>
    exact .last (delivery_error hkinds.truncated (.inl rfl)) (fun _ => by simp)
      (framing_truncated hne hpiece hbound)
  | tooLarge hcut hpiece hlarge =>
    refine .last (delivery_error hkinds.tooLarge (.inr rfl)) (fun _ => by simp) ?_
    rw [hcut]
    exact framing_tooLarge hpiece hlarge
  | notUtf8 hcut hpiece hbound htext =>
    refine .last (delivery_error (hkinds.notUtf8 _) (.inr rfl)) (fun _ => by simp) ?_
    rw [hcut, framing_piece hpiece hbound, htext]
  | frame hcut hpiece hbound htext hsize =>
    refine .frame rfl hsize ?_ ?_
    · rw [utf8Bytes_of_fromUtf8 htext, hcut]
      simp [Conn.unread]
    · rw [hcut, framing_piece hpiece hbound, htext]
      rfl

section calls

variable {utf8Error : List UInt8 → String} {maxPayloadBytes : ℕ} {conn : Conn}

theorem frameErrors_kinds : (frameErrors utf8Error maxPayloadBytes).Kinds := ⟨rfl, rfl, fun _ => rfl⟩

theorem chunkErrors_kinds : (chunkErrors utf8Error).Kinds := ⟨rfl, rfl, fun _ => rfl⟩

theorem readNdjsonFrameWithLimit_spec (hheld : conn.Held maxPayloadBytes) :
    CallSpec maxPayloadBytes conn (readNdjsonFrameWithLimit utf8Error maxPayloadBytes conn) := by
  -- Every turn of the loop is a step of the connection; the last one is the call.
  fun_induction readNdjsonFrameWithLimit utf8Error maxPayloadBytes conn with
  | case1 conn result conn' h =>
    have hpart := @readPart_spec (frameErrors utf8Error maxPayloadBytes) _ _ hheld
    rw [h] at hpart
    exact hpart.callSpec frameErrors_kinds
  | case2 conn conn' h _ ih =>
    have hpart := @readPart_spec (frameErrors utf8Error maxPayloadBytes) _ _ hheld
    rw [h] at hpart
    cases hpart with
    | more hstep => exact (ih hstep.held).after hstep

theorem readNdjsonChunkWithLimit_spec (hheld : conn.Held maxPayloadBytes) :
    CallSpec maxPayloadBytes conn (readNdjsonChunkWithLimit utf8Error maxPayloadBytes conn) := by
  have hpart := @readPart_spec (chunkErrors utf8Error) _ _ hheld
  unfold readNdjsonChunkWithLimit
  rcases h : readPart (chunkErrors utf8Error) maxPayloadBytes conn with ⟨result, conn'⟩ | ⟨conn'⟩
  · rw [h] at hpart
    exact hpart.callSpec chunkErrors_kinds
  · rw [h] at hpart
    cases hpart with
    | more hstep => exact .again rfl hstep

theorem ReadCall.read_spec (call : ReadCall) (hheld : conn.Held maxPayloadBytes) :
    CallSpec maxPayloadBytes conn (call.read utf8Error maxPayloadBytes conn) := by
  cases call with
  | frame => exact readNdjsonFrameWithLimit_spec hheld
  | chunk => exact readNdjsonChunkWithLimit_spec hheld

end calls

/-! ## Runs -/

section runs

variable (utf8Error : List UInt8 → String) (maxPayloadBytes : ℕ)

def goesOn (result : ReadResult) : Bool :=
  match delivery result with
  | none | some (.frame _) => true
  | some .ended | some (.failed _) => false

def returned : ReadResult → List String
  | .ok (some text) => [text]
  | _ => []

/-- The results of a caller that reads on until the stream ends or fails. -/
def readAll : List ReadCall → Conn → List ReadResult
  | [], _ => []
  | call :: calls, conn =>
    let (result, conn) := call.read utf8Error maxPayloadBytes conn
    result :: if goesOn result then readAll calls conn else []

def loopHeads (conn : Conn) : List Conn :=
  match h : readPart (frameErrors utf8Error maxPayloadBytes) maxPayloadBytes conn with
  | .done _ _ => [conn]
  | .more conn' =>
    have : conn'.reader.size < conn.reader.size := size_lt_of_readPart_more h
    conn :: loopHeads conn'
termination_by conn.reader.size

def ReadCall.heads : ReadCall → Conn → List Conn
  | .frame, conn => loopHeads utf8Error maxPayloadBytes conn
  | .chunk, conn => [conn]

/-- The connection at every moment at which a call waits for bytes or between two calls, with the frames
returned until then. -/
def moments : List ReadCall → Conn → List (List String × Conn)
  | [], conn => [([], conn)]
  | call :: calls, conn =>
    (call.heads utf8Error maxPayloadBytes conn).map (fun head => ([], head)) ++
      let (result, conn) := call.read utf8Error maxPayloadBytes conn
      if goesOn result then (moments calls conn).map fun moment => (returned result ++ moment.1, moment.2)
      else []

variable {utf8Error maxPayloadBytes}

theorem goesOn_last {result : ReadResult} {d : Delivery} (hlast : delivery result = some d)
    (hnot : ∀ text, d ≠ .frame text) : goesOn result = false := by
  unfold goesOn
  rw [hlast]
  cases d with
  | frame text => exact absurd rfl (hnot text)
  | ended => rfl
  | failed kind => rfl

theorem returned_of_delivery_none {result : ReadResult} (h : delivery result = none) : returned result = [] := by
  unfold returned
  split
  · cases h
  · rfl

/-- Whatever readers are called, the deliveries are the first ones that the stream means, and all of them once
the calls outnumber the bytes and the arrivals. -/
theorem readAll_deliveries (calls : List ReadCall) {conn : Conn} (hheld : conn.Held maxPayloadBytes) :
    (readAll utf8Error maxPayloadBytes calls conn).filterMap delivery <+: framing maxPayloadBytes conn.unread ∧
      (conn.reader.size < calls.length →
        (readAll utf8Error maxPayloadBytes calls conn).filterMap delivery = framing maxPayloadBytes conn.unread) := by
  induction calls generalizing conn with
  | nil => exact ⟨List.nil_prefix, fun h => absurd h (Nat.not_lt_zero _)⟩
  | cons call calls ih =>
    have hcall := @ReadCall.read_spec utf8Error _ _ call hheld
    simp only [readAll, List.length_cons]
    generalize call.read utf8Error maxPayloadBytes conn = out at hcall
    cases hcall with
    | again hretry hstep =>
      obtain ⟨hheader, hall⟩ := ih hstep.held
      have hsize := hstep.size
      simp only [goesOn, hretry, if_true, List.filterMap_cons]
      rw [← hstep.unread]
      exact ⟨hheader, fun h => hall (by omega)⟩
    | @frame text conn' hpending hsize _ hframing =>
      obtain ⟨hheader, hall⟩ := ih (Conn.Held.of_pending_nil hpending)
      simp only [goesOn, delivery, if_true, List.filterMap_cons]
      rw [hframing]
      exact ⟨List.cons_prefix_cons.mpr ⟨rfl, hheader⟩, fun h => congrArg _ (hall (by omega))⟩
    | @last result conn' d hlast hnot hframing =>
      simp only [goesOn_last hlast hnot, Bool.false_eq_true, if_false, List.filterMap_cons, hlast, List.filterMap_nil]
      rw [hframing]
      exact ⟨List.prefix_refl _, fun _ => rfl⟩

theorem loopHeads_unread {conn head : Conn} (hheld : conn.Held maxPayloadBytes)
    (hhead : head ∈ loopHeads utf8Error maxPayloadBytes conn) :
    head.Held maxPayloadBytes ∧ head.unread = conn.unread := by
  fun_induction loopHeads utf8Error maxPayloadBytes conn with
  | case1 conn result conn' h =>
    obtain rfl := List.mem_singleton.mp hhead
    exact ⟨hheld, rfl⟩
  | case2 conn conn' h _ ih =>
    have hpart := @readPart_spec (frameErrors utf8Error maxPayloadBytes) _ _ hheld
    rw [h] at hpart
    cases hpart with
    | more hstep =>
      rcases List.mem_cons.mp hhead with rfl | hrest
      · exact ⟨hheld, rfl⟩
      · obtain ⟨hheld', hunread⟩ := ih hstep.held hrest
        exact ⟨hheld', hunread.trans hstep.unread⟩

theorem ReadCall.heads_unread {call : ReadCall} {conn head : Conn} (hheld : conn.Held maxPayloadBytes)
    (hhead : head ∈ call.heads utf8Error maxPayloadBytes conn) :
    head.Held maxPayloadBytes ∧ head.unread = conn.unread := by
  cases call with
  | frame => exact loopHeads_unread hheld hhead
  | chunk =>
    obtain rfl := List.mem_singleton.mp hhead
    exact ⟨hheld, rfl⟩

theorem moments_unread {calls : List ReadCall} {conn : Conn} (hheld : conn.Held maxPayloadBytes)
    {moment : List String × Conn} (hmoment : moment ∈ moments utf8Error maxPayloadBytes calls conn) :
    moment.2.Held maxPayloadBytes ∧ conn.unread = moment.1.flatMap utf8Bytes ++ moment.2.unread := by
  induction calls generalizing conn moment with
  | nil =>
    obtain rfl := List.mem_singleton.mp hmoment
    exact ⟨hheld, rfl⟩
  | cons call calls ih =>
    have hcall := @ReadCall.read_spec utf8Error _ _ call hheld
    rw [moments, List.mem_append] at hmoment
    rcases hmoment with hhead | hlater
    · obtain ⟨head, hmem, rfl⟩ := List.mem_map.mp hhead
      obtain ⟨hheld', hunread⟩ := call.heads_unread hheld hmem
      exact ⟨hheld', hunread.symm⟩
    · generalize call.read utf8Error maxPayloadBytes conn = out at hcall hlater
      cases hcall with
      | again hretry hstep =>
        simp only [goesOn, hretry, if_true, returned_of_delivery_none hretry, List.nil_append] at hlater
        obtain ⟨later, hmem, rfl⟩ := List.mem_map.mp hlater
        obtain ⟨hheld', hunread⟩ := ih hstep.held hmem
        exact ⟨hheld', hstep.unread.symm.trans hunread⟩
      | frame hpending hsize hunread hframing =>
        simp only [goesOn, delivery, if_true, returned] at hlater
        obtain ⟨later, hmem, rfl⟩ := List.mem_map.mp hlater
        obtain ⟨hheld', hrest⟩ := ih (Conn.Held.of_pending_nil hpending) hmem
        refine ⟨hheld', ?_⟩
        rw [hunread, hrest, List.singleton_append, List.flatMap_cons, List.append_assoc]
      | last hlast hnot hframing =>
        simp only [goesOn_last hlast hnot, Bool.false_eq_true, if_false] at hlater
        cases hlater

/-- Framing does not depend on how the stream arrives. For every stream of bytes, every way to cut it into reads
with timeouts among them, and every choice of a reader for each call:

* what the calls deliver, the repeated ones left out, are the first of the pieces that the stream means, and once
  the calls outnumber the bytes and the arrivals all of them and how the stream ends;
* at every moment the stream is the frames returned so far, then `pending`, then what is still to come, and
  `pending` is the beginning of a piece that has not ended, of at most `maxPayloadBytes` bytes. -/
theorem ndjson_framing (utf8Error : List UInt8 → String) (maxPayloadBytes : ℕ) (arrivals : List Arrival)
    (calls : List ReadCall) :
    let stream := arrivals.flatMap Arrival.payload
    let conn : Conn := ⟨⟨[], arrivals⟩, []⟩
    let deliveries := (readAll utf8Error maxPayloadBytes calls conn).filterMap delivery
    deliveries <+: framing maxPayloadBytes stream ∧
      (stream.length + arrivals.length < calls.length → deliveries = framing maxPayloadBytes stream) ∧
      ∀ frames conn', (frames, conn') ∈ moments utf8Error maxPayloadBytes calls conn →
        stream = frames.flatMap utf8Bytes ++ (conn'.pending ++ conn'.reader.stream) ∧
          lineFeed ∉ conn'.pending ∧ conn'.pending.length ≤ maxPayloadBytes := by
  intro stream conn deliveries
  have hheld : conn.Held maxPayloadBytes := Conn.Held.of_pending_nil rfl
  obtain ⟨hheader, hall⟩ := @readAll_deliveries utf8Error _ calls _ hheld
  refine ⟨hheader, hall, fun frames conn' hmoment => ?_⟩
  obtain ⟨hheld', hunread⟩ := moments_unread hheld hmoment
  exact ⟨hunread, hheld'.unfinished, hheld'.bounded⟩

end runs

end Emucap.Live
