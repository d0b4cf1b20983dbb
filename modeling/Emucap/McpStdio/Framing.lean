import Mathlib.Data.List.Infix
import Emucap.McpStdio.Transport

/-!
# The lines of a stream

The lines handed to `parse_line` are the complete pieces of the stream that are short enough (`linesWithin`). Calls
dropped while `parse_line` waits for its answer to be written are left out (`Stands.fenced`).
-/

namespace Emucap.McpStdio

open Emucap.Lib

variable {μ ι : Type}

/-! ## Lines -/

def linesWithin (stream : List UInt8) : List (List UInt8) :=
  (pieces newline stream).filter fun line => line.length ≤ maxMcpStdinLineBytes

theorem linesWithin_append {more : List UInt8} (h : newline ∉ more) (stream : List UInt8) :
    linesWithin (stream ++ more) = linesWithin stream := by
  rw [linesWithin, (pieces_append h stream).1, linesWithin]

theorem linesWithin_long {more : List UInt8} (h : newline ∉ more) {stream : List UInt8}
    (hlong : maxMcpStdinLineBytes < (unfinished newline stream ++ more).length) :
    linesWithin (stream ++ (more ++ [newline])) = linesWithin stream := by
  rw [linesWithin, (pieces_append_sep h stream).1, List.filter_append, List.filter_cons_of_neg, List.filter_nil,
    List.append_nil, linesWithin]
  simp only [decide_eq_true_eq]
  omega

theorem linesWithin_short {more : List UInt8} (h : newline ∉ more) {stream : List UInt8}
    (hshort : (unfinished newline stream ++ more).length ≤ maxMcpStdinLineBytes) :
    linesWithin (stream ++ (more ++ [newline])) = linesWithin stream ++ [unfinished newline stream ++ more] := by
  rw [linesWithin, (pieces_append_sep h stream).1, List.filter_append, List.filter_cons_of_pos, List.filter_nil,
    linesWithin]
  simpa using hshort

theorem take_idxOf_newline {available : List UInt8} (h : newline ∈ available) :
    ∃ more, newline ∉ more ∧ available.idxOf newline = more.length ∧ available.take more.length = more ∧
      available.take (more.length + 1) = more ++ [newline] := by
  obtain ⟨more, rest, rfl, hmore⟩ := List.eq_append_cons_of_mem h
  refine ⟨more, hmore, ?_, by simp, ?_⟩
  · rw [List.idxOf_append_of_notMem hmore, List.idxOf_cons_self, Nat.add_zero]
  · simp [List.take_append]

/-- The lines that were handed to `parse_line`. -/
def handedLines (trace : List (Event μ ι)) : List (List UInt8) :=
  trace.filterMap fun e => match e with
    | .handed line => some line
    | _ => none

/-! ## The invariant -/

/-- At every moment of a run over `stream`: the lines handed out are those of the bytes read. -/
structure Stands (stream : List UInt8) (s : Stdio μ ι) : Prop where
  stream_eq : s.consumed ++ s.unread = stream
  handed : handedLines s.trace = linesWithin s.consumed
  fenced : (Await.parseLine, Turn.dropped) ∉ s.schedule

/-- The line and the flag are those of the unfinished piece, unless the stream is over. -/
def Framed (s : Stdio μ ι) : Prop :=
  s.ended = true ∧ s.unread = [] ∨
    s.discardingOversized = false ∧ s.line = unfinished newline s.consumed ∧ s.line.length ≤ maxMcpStdinLineBytes ∨
    s.discardingOversized = true ∧ s.line = [] ∧ maxMcpStdinLineBytes < (unfinished newline s.consumed).length

/-- A line was read, and not handed out yet. -/
structure HasRead (stream : List UInt8) (s : Stdio μ ι) : Prop where
  stream_eq : s.consumed ++ s.unread = stream
  handed : handedLines s.trace ++ [s.line] = linesWithin s.consumed
  fenced : (Await.parseLine, Turn.dropped) ∉ s.schedule
  discarding : s.discardingOversized = false
  unfinished_eq : unfinished newline s.consumed = []

/-- An await changes the schedule, and it moves bytes from the stream to the buffer. -/
structure Awaited (s t : Stdio μ ι) : Prop where
  line : t.line = s.line
  discarding : t.discardingOversized = s.discardingOversized
  admitted : t.admitted = s.admitted
  ended : t.ended = s.ended
  unread : t.unread = s.unread
  consumed : t.consumed = s.consumed
  trace : t.trace = s.trace
  schedule : t.schedule <:+ s.schedule

namespace Awaited
variable {s t u : Stdio μ ι} {stream : List UInt8}

theorem refl (s : Stdio μ ι) : Awaited s s := ⟨rfl, rfl, rfl, rfl, rfl, rfl, rfl, List.suffix_rfl⟩

theorem trans (h : Awaited s t) (h' : Awaited t u) : Awaited s u :=
  ⟨h'.line.trans h.line, h'.discarding.trans h.discarding, h'.admitted.trans h.admitted, h'.ended.trans h.ended,
    h'.unread.trans h.unread, h'.consumed.trans h.consumed, h'.trace.trans h.trace, h'.schedule.trans h.schedule⟩

theorem stands (h : Awaited s t) (hs : Stands stream s) : Stands stream t where
  stream_eq := by rw [h.consumed, h.unread, hs.stream_eq]
  handed := by rw [h.trace, h.consumed, hs.handed]
  fenced := fun hmem => hs.fenced (h.schedule.subset hmem)

theorem framed (h : Awaited s t) (hs : Framed s) : Framed t := by
  unfold Framed at hs ⊢
  rw [h.line, h.discarding, h.ended, h.unread, h.consumed]
  exact hs

end Awaited

theorem await_spec (site : Await) (s : Stdio μ ι) :
    wp (await site) (fun _ t => Awaited s t ∧ t.buffered = s.buffered)
      (fun e t => Awaited s t ∧ (e = .dropped → (site, .dropped) ∈ s.schedule)) s := by
  unfold wp await
  cases hschedule : s.schedule with
  | nil => exact ⟨.refl s, nofun⟩
  | cons entry rest =>
    obtain ⟨next, turn⟩ := entry
    have hawaited : Awaited s { s with schedule := rest } :=
      ⟨rfl, rfl, rfl, rfl, rfl, rfl, rfl, by rw [hschedule]; exact List.suffix_cons _ _⟩
    by_cases hsite : next = site
    · simp only [if_pos hsite]
      cases turn with
      | ready => exact ⟨hawaited, rfl⟩
      | fails => exact ⟨hawaited, rfl⟩
      | dropped => exact ⟨hawaited, fun _ => by rw [hsite]; exact List.mem_cons_self⟩
    · simp only [if_neg hsite]
      exact ⟨.refl s, nofun⟩

/-- A read gives what stands in the buffer afterwards; nothing stands there at the end of the stream only. -/
theorem fillBuf_spec (s : Stdio μ ι) :
    wp fillBuf (fun a t => Awaited s t ∧ ∀ available, a = some available →
        available = t.buffered ∧ (available = [] → t.ended = true ∧ t.unread = []))
      (fun _ t => Awaited s t) s := by
  rw [fillBuf, wp_bind, wp_get]
  by_cases hbuffered : s.buffered = []
  · rw [if_neg (by simpa using hbuffered), wp_bind]
    refine wp_mono (await_spec .fillBuf s) ?_ (fun _ _ h => h.1)
    rintro succeeded t ⟨hawaited, hsame⟩
    cases succeeded with
    | false => exact ⟨hawaited, nofun⟩
    | true =>
      rw [if_pos rfl, wp_map]
      unfold wp nextChunk
      cases hchunks : t.chunks with
      | nil =>
        by_cases hended : t.ended = true
        · simp only [if_pos hended]
          refine ⟨hawaited, ?_⟩
          rintro available ⟨⟩
          refine ⟨(hsame.trans hbuffered).symm, fun _ => ⟨hended, ?_⟩⟩
          rw [Stdio.unread, hsame, hbuffered, hchunks]
          rfl
        · simp only [if_neg hended]
          exact hawaited
      | cons chunk rest =>
        refine ⟨hawaited.trans ⟨rfl, rfl, rfl, rfl, ?_, rfl, rfl, List.suffix_rfl⟩, ?_⟩
        · simp [Stdio.unread, hsame, hbuffered, hchunks]
        · rintro available ⟨⟩
          exact ⟨rfl, nofun⟩
  · rw [if_pos (by simpa using hbuffered), wp_pure]
    refine ⟨.refl s, ?_⟩
    rintro available ⟨⟩
    exact ⟨rfl, fun h => absurd h hbuffered⟩

/-! ## One round -/

structure RoundDone (stream : List UInt8) (s : Stdio μ ι) (out : Option (Option BoundedLine)) (t : Stdio μ ι) :
    Prop where
  admitted : t.admitted = s.admitted
  trace : t.trace = s.trace
  read : out = some (some .line) → HasRead stream t
  kept : out ≠ some (some .line) → Stands stream t ∧ Framed t

/-- The state after `consume` and an update of the line. -/
def Stdio.took (s : Stdio μ ι) (count : ℕ) (line : List UInt8) (discardingOversized : Bool) : Stdio μ ι :=
  { s with
    buffered := s.buffered.drop count
    consumed := s.consumed ++ s.buffered.take count
    line := line
    discardingOversized := discardingOversized }

section took
variable {stream line : List UInt8} {s : Stdio μ ι} {count : ℕ} {discarding : Bool}

theorem took_stream_eq (h : s.consumed ++ s.unread = stream) :
    (s.took count line discarding).consumed ++ (s.took count line discarding).unread = stream := by
  rw [← h, Stdio.unread, Stdio.unread]
  show s.consumed ++ s.buffered.take count ++ (s.buffered.drop count ++ _) = _
  rw [List.append_assoc, ← List.append_assoc (s.buffered.take count), List.take_append_drop]
  rfl

theorem Stands.took (h : Stands stream s)
    (hlines : linesWithin (s.consumed ++ s.buffered.take count) = linesWithin s.consumed) :
    Stands stream (s.took count line discarding) where
  stream_eq := took_stream_eq h.stream_eq
  handed := h.handed.trans hlines.symm
  fenced := h.fenced

theorem framed_fresh (hline : line = []) (hdiscarding : discarding = false)
    (hunfinished : unfinished newline (s.consumed ++ s.buffered.take count) = []) :
    Framed (s.took count line discarding) := by
  refine .inr (.inl ⟨hdiscarding, ?_, ?_⟩)
  · exact hline.trans hunfinished.symm
  · show line.length ≤ _
    rw [hline]
    exact Nat.zero_le _

end took

section rounds
variable {stream available : List UInt8} {s : Stdio μ ι} {E : Cut → Stdio μ ι → Prop}

theorem readEnd_spec (hs : Stands stream s) (hended : s.ended = true) (hunread : s.unread = []) :
    wp (readEnd s) (RoundDone stream s) E s := by
  rw [readEnd]
  split
  · exact ⟨rfl, rfl, nofun, fun _ => ⟨⟨hs.stream_eq, hs.handed, hs.fenced⟩, .inl ⟨hended, hunread⟩⟩⟩
  · exact ⟨rfl, rfl, nofun, fun _ => ⟨⟨hs.stream_eq, hs.handed, hs.fenced⟩, .inl ⟨hended, hunread⟩⟩⟩

theorem readDiscarding_spec (hs : Stands stream s) (hbuffered : available = s.buffered)
    (hdiscarding : s.discardingOversized = true) (hline : s.line = [])
    (hlong : maxMcpStdinLineBytes < (unfinished newline s.consumed).length) :
    wp (readDiscarding s available) (RoundDone stream s) E s := by
  subst hbuffered
  rw [readDiscarding]
  split
  next hnewline =>
    obtain ⟨more, hmore, hindex, -, htake⟩ := take_idxOf_newline hnewline
    rw [hindex]
    refine ⟨rfl, rfl, nofun, fun _ => ?_⟩
    show Stands stream (s.took (more.length + 1) s.line false) ∧ Framed (s.took (more.length + 1) s.line false)
    refine ⟨hs.took ?_, framed_fresh hline rfl ?_⟩
    · rw [htake]
      exact linesWithin_long hmore (by rw [List.length_append]; omega)
    · rw [htake]
      exact (pieces_append_sep hmore _).2
  next hnewline =>
    refine ⟨rfl, rfl, nofun, fun _ => ?_⟩
    show Stands stream (s.took s.buffered.length s.line s.discardingOversized) ∧
      Framed (s.took s.buffered.length s.line s.discardingOversized)
    refine ⟨hs.took ?_, .inr (.inr ⟨hdiscarding, hline, ?_⟩)⟩
    · rw [List.take_length]
      exact linesWithin_append hnewline _
    · show _ < (unfinished newline (s.consumed ++ s.buffered.take s.buffered.length)).length
      rw [List.take_length, (pieces_append hnewline _).2, List.length_append]
      omega

theorem readCollecting_spec (hs : Stands stream s) (hbuffered : available = s.buffered)
    (hdiscarding : s.discardingOversized = false) (hline : s.line = unfinished newline s.consumed) :
    wp (readCollecting s available) (RoundDone stream s) E s := by
  subst hbuffered
  rw [readCollecting]
  split
  next hnewline =>
    obtain ⟨more, hmore, hindex, hfirst, htake⟩ := take_idxOf_newline hnewline
    simp only [hindex]
    have hunfinished : unfinished newline (s.consumed ++ s.buffered.take (more.length + 1)) = [] := by
      rw [htake]
      exact (pieces_append_sep hmore _).2
    split
    next hlong =>
      refine ⟨rfl, rfl, nofun, fun _ => ?_⟩
      show Stands stream (s.took (more.length + 1) [] s.discardingOversized) ∧
        Framed (s.took (more.length + 1) [] s.discardingOversized)
      refine ⟨hs.took ?_, framed_fresh rfl hdiscarding hunfinished⟩
      rw [htake]
      refine linesWithin_long hmore ?_
      rw [List.length_append, ← hline]
      exact hlong
    next hshort =>
      refine ⟨rfl, rfl, fun _ => ?_, fun h => absurd rfl h⟩
      show HasRead stream (s.took (more.length + 1) (s.line ++ s.buffered.take more.length) s.discardingOversized)
      refine ⟨took_stream_eq hs.stream_eq, ?_, hs.fenced, hdiscarding, hunfinished⟩
      show handedLines s.trace ++ [s.line ++ s.buffered.take more.length] =
        linesWithin (s.consumed ++ s.buffered.take (more.length + 1))
      rw [hs.handed, htake, hfirst, hline, linesWithin_short hmore]
      rw [List.length_append, ← hline]
      omega
  next hnewline =>
    have hlines : linesWithin (s.consumed ++ s.buffered.take s.buffered.length) = linesWithin s.consumed := by
      rw [List.take_length]
      exact linesWithin_append hnewline _
    have hunfinished : unfinished newline (s.consumed ++ s.buffered.take s.buffered.length) = s.line ++ s.buffered := by
      rw [List.take_length, (pieces_append hnewline _).2, hline]
    split
    next hlong =>
      refine ⟨rfl, rfl, nofun, fun _ => ?_⟩
      show Stands stream (s.took s.buffered.length [] true) ∧ Framed (s.took s.buffered.length [] true)
      refine ⟨hs.took hlines, .inr (.inr ⟨rfl, rfl, ?_⟩)⟩
      show _ < (unfinished newline (s.consumed ++ s.buffered.take s.buffered.length)).length
      rw [hunfinished, List.length_append]
      exact hlong
    next hshort =>
      refine ⟨rfl, rfl, nofun, fun _ => ?_⟩
      show Stands stream (s.took s.buffered.length (s.line ++ s.buffered) s.discardingOversized) ∧
        Framed (s.took s.buffered.length (s.line ++ s.buffered) s.discardingOversized)
      refine ⟨hs.took hlines, .inr (.inl ⟨hdiscarding, hunfinished.symm, ?_⟩)⟩
      show (s.line ++ s.buffered).length ≤ _
      rw [List.length_append]
      omega

end rounds

/-- Between two rounds, of a call that began in `s₀`. -/
structure Between (stream : List UInt8) (s₀ s : Stdio μ ι) : Prop where
  stands : Stands stream s
  framed : Framed s
  admitted : s.admitted = s₀.admitted
  trace : s.trace = s₀.trace

theorem Between.awaited {stream : List UInt8} {s₀ s t : Stdio μ ι} (hs : Between stream s₀ s) (h : Awaited s t) :
    Between stream s₀ t :=
  ⟨h.stands hs.stands, h.framed hs.framed, h.admitted.trans hs.admitted, h.trace.trans hs.trace⟩

theorem readRound_spec {stream : List UInt8} {s₀ s : Stdio μ ι} (hs : Between stream s₀ s) :
    wp readRound (RoundDone stream s₀) (fun _ => Between stream s₀) s := by
  rw [readRound, wp_bind]
  refine wp_mono (fillBuf_spec s) ?_ (fun _ _ h => hs.awaited h)
  rintro a t ⟨hawaited, hread⟩
  have ht := hs.awaited hawaited
  cases a with
  | none => exact ⟨ht.admitted, ht.trace, nofun, fun _ => ⟨ht.stands, ht.framed⟩⟩
  | some available =>
    obtain ⟨hbuffered, hend⟩ := hread available rfl
    have hdone : ∀ {x : Receiving μ ι (Option (Option BoundedLine))},
        wp x (RoundDone stream t) (fun _ => Between stream s₀) t →
          wp x (RoundDone stream s₀) (fun _ => Between stream s₀) t :=
      fun h => wp_mono h (fun _ _ hdone => ⟨hdone.admitted.trans ht.admitted, hdone.trace.trans ht.trace, hdone.read,
        hdone.kept⟩) (fun _ _ h => h)
    simp only [wp_bind, wp_get]
    apply hdone
    by_cases hempty : available = []
    · rw [if_pos hempty]
      obtain ⟨hended, hunread⟩ := hend hempty
      exact readEnd_spec ht.stands hended hunread
    · rw [if_neg hempty]
      rcases ht.framed with ⟨-, hunread⟩ | ⟨hdiscarding, hline, -⟩ | ⟨hdiscarding, hline, hlong⟩
      · rw [Stdio.unread, List.append_eq_nil_iff] at hunread
        exact absurd (hbuffered.trans hunread.1) hempty
      · rw [if_neg (by simp [hdiscarding])]
        exact readCollecting_spec ht.stands hbuffered hdiscarding hline
      · rw [if_pos hdiscarding]
        exact readDiscarding_spec ht.stands hbuffered hdiscarding hline hlong

theorem readBoundedLine_spec {stream : List UInt8} {s : Stdio μ ι} (hs : Stands stream s) (hframed : Framed s) :
    wp readBoundedLine (fun a => RoundDone stream s (some a)) (fun _ => Between stream s) s := by
  refine wp_untilValue (I := Between stream s) (E := fun _ => Between stream s) ?_ (fun _ h => h) _
    ⟨hs, hframed, rfl, rfl⟩
  intro t ht
  refine wp_mono (readRound_spec ht) ?_ (fun _ _ h => h)
  intro a u hdone
  refine ⟨?_, ?_⟩
  · rintro v rfl
    exact hdone
  · rintro rfl
    obtain ⟨hstands, hframed⟩ := hdone.kept nofun
    exact ⟨hstands, hframed, hdone.admitted, hdone.trace⟩

end Emucap.McpStdio
