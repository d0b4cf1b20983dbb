import Emucap.McpStdio.Framing

/-!
# Receiving

`Admitted` holds at every await: what was returned before the admission are pings, and a message that opens the
session is returned right after its line was handed out. The last section runs a session in which a write is dropped.
-/

namespace Emucap.McpStdio

open Emucap.Lib

variable {μ ι : Type} (p : Protocol μ ι)

/-! ## Messages that may come early -/

def IsPing (message : μ) (raw : Json) : Prop := (p.request message).isSome = true ∧ methodOf raw = "ping"

/-- The request carries both keys of the modern metadata. -/
def CarriesMetadata (raw : Json) : Prop :=
  ∃ params metadata, raw.get "params" = some params ∧ params.get "_meta" = some metadata ∧
    (∃ version, (metadata.get protocolVersionKey).bind Json.asStr = some version) ∧
    ∃ capabilities, metadata.get clientCapabilitiesKey = some capabilities

def Opens (message : μ) (raw : Json) : Prop :=
  (p.request message).isSome = true ∧ (methodOf raw = "initialize" ∨ CarriesMetadata raw)

theorem missingMetadata_eq_nil {raw : Json} : missingMetadata raw = [] ↔ CarriesMetadata raw := by
  unfold missingMetadata CarriesMetadata
  cases hparams : raw.get "params" with
  | none => simp
  | some params =>
    cases hmetadata : params.get "_meta" with
    | none => simp [hmetadata]
    | some metadata =>
      have hbind : (some params).bind (·.get "_meta") = some metadata := hmetadata
      simp only [hbind, Option.bind_some, Option.some.injEq, exists_and_left, exists_eq_left', hmetadata]
      cases (metadata.get protocolVersionKey).bind Json.asStr with
      | none => simp
      | some version =>
        cases metadata.get clientCapabilitiesKey with
        | none => simp
        | some capabilities => simp

variable {p} {message : μ} {raw : Json}

theorem admission_ping (h : admission p message raw = .ping) : IsPing p message raw := by
  unfold admission at h
  split at h
  · cases h
  next id hid =>
    split at h
    next hmethod => exact ⟨by rw [hid]; rfl, hmethod⟩
    next =>
      split_ifs at h

theorem admission_admits (h : admission p message raw = .admits) : Opens p message raw := by
  unfold admission at h
  split at h
  · cases h
  next id hid =>
    refine ⟨by rw [hid]; rfl, ?_⟩
    split_ifs at h with hping hinitialize hmissing
    · exact .inl hinitialize
    · exact .inr ((missingMetadata_eq_nil).mp (not_not.mp hmissing))

theorem admission_of_opens (h : Opens p message raw) (rejection : Rejection ι) :
    admission p message raw ≠ .refused rejection := by
  obtain ⟨hrequest, hopens⟩ := h
  unfold admission
  split
  next hnone =>
    rw [hnone] at hrequest
    cases hrequest
  · split
    · exact nofun
    · split
      · exact nofun
      next hinitialize =>
        rw [if_neg (not_not.mpr ((missingMetadata_eq_nil).mpr (hopens.resolve_left hinitialize)))]
        exact nofun

/-! ## The invariant of the trace -/

theorem append_singleton_split {α : Type} {l before after : List α} {e a : α} (h : l ++ [e] = before ++ a :: after) :
    (before = l ∧ a = e ∧ after = []) ∨ ∃ after', after = after' ++ [e] ∧ l = before ++ a :: after' := by
  rcases List.eq_nil_or_concat after with rfl | ⟨after', last, rfl⟩
  · obtain ⟨hl, he⟩ := List.append_inj' h rfl
    exact .inl ⟨hl.symm, (List.singleton_inj.mp he).symm, rfl⟩
  · rw [List.concat_eq_append, ← List.cons_append, ← List.append_assoc] at h
    obtain ⟨hl, he⟩ := List.append_inj' h rfl
    rw [List.singleton_inj] at he
    exact .inr ⟨after', by rw [he, List.concat_eq_append], hl⟩

variable (p) in
/-- Whatever was returned is a ping, opens the session, or comes after a message that does. -/
def EarlyReturns (trace : List (Event μ ι)) : Prop :=
  ∀ before message raw after, trace = before ++ .returned message raw :: after →
    IsPing p message raw ∨ Opens p message raw ∨ ∃ m r, .returned m r ∈ before ∧ Opens p m r

variable (p) in
/-- The message of a line that opens the session is returned at once. -/
def OpeningsReturned (trace : List (Event μ ι)) : Prop :=
  ∀ before line after message raw, trace = before ++ .handed line :: after →
    decodeLine p line = .message message raw → Opens p message raw → after.head? = some (.returned message raw)

variable (p) in
structure Admitted (s : Stdio μ ι) : Prop where
  early : EarlyReturns p s.trace
  returned : OpeningsReturned p s.trace
  opened : s.admitted = true → ∃ m r, .returned m r ∈ s.trace ∧ Opens p m r

theorem EarlyReturns.append {trace : List (Event μ ι)} (h : EarlyReturns p trace) {e : Event μ ι}
    (he : ∀ message raw, e = .returned message raw →
      IsPing p message raw ∨ Opens p message raw ∨ ∃ m r, .returned m r ∈ trace ∧ Opens p m r) :
    EarlyReturns p (trace ++ [e]) := by
  intro before message raw after hsplit
  rcases append_singleton_split hsplit with ⟨rfl, he', -⟩ | ⟨after', rfl, hl⟩
  · exact he message raw he'.symm
  · exact h before message raw after' hl

theorem OpeningsReturned.append {trace : List (Event μ ι)} (h : OpeningsReturned p trace) {e : Event μ ι}
    (he : ∀ line message raw, e = .handed line → decodeLine p line = .message message raw → ¬ Opens p message raw) :
    OpeningsReturned p (trace ++ [e]) := by
  intro before line after message raw hsplit hdecode hopens
  rcases append_singleton_split hsplit with ⟨rfl, he', -⟩ | ⟨after', rfl, hl⟩
  · exact absurd hopens (he line message raw he'.symm hdecode)
  · rw [List.head?_append, h before line after' message raw hl hdecode hopens]
    rfl

theorem OpeningsReturned.append_returned {trace : List (Event μ ι)} (h : OpeningsReturned p trace) {line : List UInt8}
    {m : μ} {r : Json} (hline : decodeLine p line = .message m r) :
    OpeningsReturned p (trace ++ [.handed line] ++ [.returned m r]) := by
  intro before line' after message raw hsplit hdecode hopens
  rcases append_singleton_split hsplit with ⟨-, he, -⟩ | ⟨after', rfl, hl⟩
  · cases he
  · rcases append_singleton_split hl with ⟨-, he, rfl⟩ | ⟨after'', rfl, hfirst⟩
    · cases he
      rw [hline] at hdecode
      cases hdecode
      rfl
    · rw [List.append_assoc, List.head?_append, h before line' after'' message raw hfirst hdecode hopens]
      rfl

theorem Admitted.awaited {s t : Stdio μ ι} (h : Admitted p s) (htrace : t.trace = s.trace)
    (hadmitted : t.admitted = s.admitted) : Admitted p t := by
  refine ⟨htrace ▸ h.early, htrace ▸ h.returned, ?_⟩
  rw [htrace, hadmitted]
  exact h.opened

theorem Admitted.append {s t : Stdio μ ι} (h : Admitted p s) {e : Event μ ι} (htrace : t.trace = s.trace ++ [e])
    (hadmitted : t.admitted = s.admitted)
    (he : ∀ message raw, e ≠ .returned message raw)
    (hline : ∀ line message raw, e = .handed line → decodeLine p line = .message message raw → ¬ Opens p message raw) :
    Admitted p t where
  early := htrace ▸ h.early.append fun message raw h => absurd h (he message raw)
  returned := htrace ▸ h.returned.append hline
  opened := by
    intro hopened
    obtain ⟨m, r, hmem, hopens⟩ := h.opened (hadmitted ▸ hopened)
    exact ⟨m, r, by rw [htrace]; exact List.mem_append_left _ hmem, hopens⟩

/-! ## One round of receive -/

variable {stream : List UInt8} {s t : Stdio μ ι}

variable (p) in
/-- The invariant of a session, where no call is running or the running one has no line. -/
structure Live (stream : List UInt8) (s : Stdio μ ι) : Prop where
  stands : Stands stream s
  framed : Framed s
  admitted : Admitted p s

variable (p) in
/-- What holds when a call ends at an await; only a dropped one is followed by another. -/
structure Stopped (stream : List UInt8) (e : Cut) (s : Stdio μ ι) : Prop where
  stands : Stands stream s
  admitted : Admitted p s
  framed : e = .dropped → Framed s

theorem Live.stopped (h : Live p stream s) (e : Cut) : Stopped p stream e s := ⟨h.stands, h.admitted, fun _ => h.framed⟩

theorem Live.awaited (h : Live p stream s) (ht : Awaited s t) : Live p stream t :=
  ⟨ht.stands h.stands, ht.framed h.framed, h.admitted.awaited ht.trace ht.admitted⟩

theorem Stands.noted {e : Event μ ι} (h : Stands stream s) (he : handedLines [e] = []) :
    Stands stream { s with trace := s.trace ++ [e] } where
  stream_eq := h.stream_eq
  handed := by
    show handedLines (s.trace ++ [e]) = _
    rw [handedLines, List.filterMap_append]
    change handedLines s.trace ++ handedLines [e] = _
    rw [he, List.append_nil, h.handed]
  fenced := h.fenced

theorem reject_spec (site : Await) (rejection : Rejection ι) (s : Stdio μ ι) :
    wp (reject site rejection) (fun _ t => Awaited { s with trace := s.trace ++ [.rejected rejection] } t)
      (fun e t => Awaited { s with trace := s.trace ++ [.rejected rejection] } t ∧
        (e = .dropped → (site, .dropped) ∈ s.schedule)) s := by
  rw [reject, wp_bind]
  show wp (await site) _ _ { s with trace := s.trace ++ [.rejected rejection] }
  exact wp_mono (await_spec site { s with trace := s.trace ++ [.rejected rejection] }) (fun _ _ h => h.1)
    (fun _ _ h => h)

theorem Live.rejected (h : Live p stream s) (rejection : Rejection ι) :
    Live p stream { s with trace := s.trace ++ [.rejected rejection] } :=
  ⟨h.stands.noted rfl, h.framed, h.admitted.append rfl rfl nofun nofun⟩

variable (p) in
structure Parsed (stream : List UInt8) (s : Stdio μ ι) (out : Option (Option (μ × Json))) (t : Stdio μ ι) : Prop where
  stands : Stands stream t
  discarding : t.discardingOversized = false
  unfinished_eq : unfinished newline t.consumed = []
  other : (∀ m, out ≠ some (some m)) → Admitted p t
  message : ∀ m, out = some (some m) → t.trace = s.trace ++ [.handed s.line] ∧
    decodeLine p s.line = .message m.1 m.2 ∧ t.admitted = s.admitted

theorem parseLine_spec (hs : HasRead stream s) (hadmitted : Admitted p s) :
    wp (parseLine p) (Parsed p stream s) (Stopped p stream) s := by
  have hstands : Stands stream { s with trace := s.trace ++ [.handed s.line] } := by
    refine ⟨hs.stream_eq, ?_, hs.fenced⟩
    show handedLines (s.trace ++ [Event.handed s.line]) = _
    rw [handedLines, List.filterMap_append]
    exact hs.handed
  simp only [parseLine, wp_bind, wp_get]
  show wp _ _ _ { s with trace := s.trace ++ [Event.handed s.line] }
  cases hdecode : decodeLine p s.line with
  | blank =>
    refine ⟨hstands, hs.discarding, hs.unfinished_eq, fun _ => ?_, fun _ h => by cases h⟩
    refine hadmitted.append rfl rfl (fun _ _ h => by cases h) ?_
    rintro line message raw ⟨⟩ h
    rw [hdecode] at h
    cases h
  | message message raw =>
    refine ⟨hstands, hs.discarding, hs.unfinished_eq, fun h => absurd rfl (h (message, raw)), ?_⟩
    rintro m ⟨⟩
    exact ⟨rfl, hdecode, rfl⟩
  | refused rejection =>
    have hhanded : Admitted p { s with trace := s.trace ++ [.handed s.line] } := by
      refine hadmitted.append rfl rfl (fun _ _ h => by cases h) ?_
      rintro line message raw ⟨⟩ h
      rw [hdecode] at h
      cases h
    have hrejected : Admitted p { s with trace := s.trace ++ [.handed s.line] ++ [.rejected rejection] } :=
      hhanded.append rfl rfl (fun _ _ h => by cases h) fun _ _ _ h => by cases h
    simp only [wp_bind]
    refine wp_mono (reject_spec .parseLine rejection { s with trace := s.trace ++ [.handed s.line] }) ?_ ?_
    · intro written t ht
      have hparsed : ∀ out : Option (Option (μ × Json)), (∀ m, out ≠ some (some m)) → Parsed p stream s out t :=
        fun out hout => ⟨ht.stands (hstands.noted rfl), ht.discarding.trans hs.discarding,
          (congrArg _ ht.consumed).trans hs.unfinished_eq, fun _ => hrejected.awaited ht.trace ht.admitted,
          fun m h => absurd h (hout m)⟩
      cases written with
      | true => exact hparsed (some none) fun _ h => by cases h
      | false => exact hparsed none fun _ h => by cases h
    · rintro e t ⟨ht, hdropped⟩
      exact ⟨ht.stands (hstands.noted rfl), hrejected.awaited ht.trace ht.admitted,
        fun h => absurd (hdropped h) hs.fenced⟩

theorem admitMessage_spec {line : List UInt8} {message : μ} {raw : Json} (hstands : Stands stream t)
    (hframed : Framed t) (hs : Admitted p s) (htrace : t.trace = s.trace ++ [.handed line])
    (hdecode : decodeLine p line = .message message raw) (hadmitted : t.admitted = s.admitted) :
    wp (admitMessage p message raw) (fun _ => Live p stream) (Stopped p stream) t := by
  have hmem : ∀ {e : Event μ ι}, e ∈ s.trace → e ∈ t.trace := fun h => htrace ▸ List.mem_append_left _ h
  have hearly : EarlyReturns p t.trace := htrace ▸ hs.early.append nofun
  have hreturn : ∀ u : Stdio μ ι, Stands stream u → Framed u → u.trace = t.trace →
      (IsPing p message raw ∨ Opens p message raw ∨ ∃ m r, .returned m r ∈ t.trace ∧ Opens p m r) →
      (u.admitted = true → Opens p message raw ∨ ∃ m r, .returned m r ∈ t.trace ∧ Opens p m r) →
      wp (returnMessage message raw) (fun _ => Live p stream) (Stopped p stream) u := by
    intro u hustands huframed hutrace hwhy hopened
    refine ⟨hustands.noted rfl, huframed, ?_, ?_, ?_⟩
    · show EarlyReturns p (u.trace ++ [.returned message raw])
      rw [hutrace]
      refine hearly.append ?_
      rintro m r ⟨⟩
      exact hwhy
    · show OpeningsReturned p (u.trace ++ [.returned message raw])
      rw [hutrace, htrace]
      exact hs.returned.append_returned hdecode
    · intro h
      rcases hopened h with hopens | ⟨m, r, hmr, hopens⟩
      · exact ⟨message, raw, List.mem_append_right _ (List.mem_singleton_self _), hopens⟩
      · exact ⟨m, r, List.mem_append_left _ (hutrace ▸ hmr), hopens⟩
  simp only [admitMessage, wp_bind, wp_get]
  by_cases hopen : t.admitted = true
  · obtain ⟨m, r, hmr, hopens⟩ := hs.opened (hadmitted ▸ hopen)
    rw [if_pos hopen]
    exact hreturn t hstands hframed rfl (.inr (.inr ⟨m, r, hmem hmr, hopens⟩)) fun _ => .inr ⟨m, r, hmem hmr, hopens⟩
  · rw [if_neg hopen, admitInitial, wp_bind]
    cases hadmission : admission p message raw with
    | ping => exact hreturn t hstands hframed rfl (.inl (admission_ping hadmission)) fun h => absurd h hopen
    | admits =>
      have hopens := admission_admits hadmission
      exact hreturn { t with admitted := true } ⟨hstands.stream_eq, hstands.handed, hstands.fenced⟩ hframed rfl
        (.inr (.inl hopens)) fun _ => .inl hopens
    | refused rejection =>
      have hlive : Live p stream t := by
        refine ⟨hstands, hframed, hs.append htrace hadmitted nofun ?_⟩
        rintro line' message' raw' ⟨⟩ hdecode' hopens
        rw [hdecode] at hdecode'
        cases hdecode'
        exact admission_of_opens hopens rejection hadmission
      simp only [wp_bind]
      refine wp_mono (reject_spec .admitInitial rejection t) ?_ ?_
      · intro written u hu
        have hrejected := (hlive.rejected rejection).awaited hu
        cases written with
        | true => exact hrejected
        | false => exact hrejected
      · rintro e u ⟨hu, -⟩
        exact ((hlive.rejected rejection).awaited hu).stopped e

theorem receiveRound_spec (hs : Live p stream s) :
    wp (receiveRound p) (fun _ => Live p stream) (Stopped p stream) s := by
  rw [receiveRound, wp_bind]
  refine wp_mono (readBoundedLine_spec hs.stands hs.framed) ?_ ?_
  · intro out t hdone
    have hadmitted : Admitted p t := hs.admitted.awaited hdone.trace hdone.admitted
    have hlive : out ≠ some .line → Live p stream t := by
      intro hout
      obtain ⟨hstands, hframed⟩ := hdone.kept fun h => hout (Option.some.inj h)
      exact ⟨hstands, hframed, hadmitted⟩
    rcases out with _ | _ | _ | _
    · exact hlive fun h => by cases h
    · have hread := hdone.read rfl
      simp only [wp_bind]
      refine wp_mono (parseLine_spec hread hadmitted) ?_ (fun _ _ h => h)
      intro parsed u hu
      rw [wp_bind, wp_modify]
      have hstands : Stands stream { u with line := [] } :=
        ⟨hu.stands.stream_eq, hu.stands.handed, hu.stands.fenced⟩
      have hframed : Framed { u with line := [] } :=
        .inr (.inl ⟨hu.discarding, hu.unfinished_eq.symm, Nat.zero_le _⟩)
      rcases parsed with _ | _ | ⟨message, raw⟩
      · exact ⟨hstands, hframed, (hu.other fun _ h => by cases h).awaited rfl rfl⟩
      · exact ⟨hstands, hframed, (hu.other fun _ h => by cases h).awaited rfl rfl⟩
      · obtain ⟨htrace, hdecode, hsame⟩ := hu.message (message, raw) rfl
        exact admitMessage_spec hstands hframed hadmitted htrace hdecode hsame
    · have hrejected := (hlive fun h => by cases h).rejected oversizedRejection
      simp only [wp_bind]
      refine wp_mono (reject_spec .oversized oversizedRejection t) ?_ ?_
      · intro written u hu
        cases written with
        | true => exact hrejected.awaited hu
        | false => exact hrejected.awaited hu
      · rintro e u ⟨hu, -⟩
        exact (hrejected.awaited hu).stopped e
    · exact hlive fun h => by cases h
  · intro e t ht
    exact ⟨ht.stands, hs.admitted.awaited ht.trace ht.admitted, fun _ => ht.framed⟩

theorem receive_spec (hs : Live p stream s) :
    wp (receive p) (fun _ => Live p stream) (Stopped p stream) s := by
  refine wp_untilValue (I := Live p stream) (E := Stopped p stream) ?_ (fun t ht => ht.stopped _) _ hs
  intro t ht
  exact wp_mono (receiveRound_spec ht) (fun _ _ h => ⟨fun _ _ => h, fun _ => h⟩) (fun _ _ h => h)

theorem session_spec (calls : ℕ) (hs : Live p stream s) :
    Stands stream (session p calls s) ∧ Admitted p (session p calls s) := by
  induction calls generalizing s with
  | zero => exact ⟨hs.stands, hs.admitted⟩
  | succ calls ih =>
    have hreceive := receive_spec hs
    unfold wp at hreceive
    rw [session]
    split
    next a t hrun =>
      rw [hrun] at hreceive
      exact ih hreceive
    next t hrun =>
      rw [hrun] at hreceive
      exact ih ⟨hreceive.stands, hreceive.framed rfl, hreceive.admitted⟩
    next e t _ hrun =>
      rw [hrun] at hreceive
      exact ⟨hreceive.stands, hreceive.admitted⟩

/-! ## Sessions -/

def fresh (chunks : List Chunk) (ended : Bool) (schedule : List (Await × Turn)) : Stdio μ ι :=
  ⟨[], [], false, false, chunks, ended, schedule, [], []⟩

variable (p) in
/-- Where no call is dropped while `parse_line` writes, the lines handed out are the complete pieces of the bytes read
that are short enough, whatever the chunks and the other drops; and the admission lets nothing but pings through before
the message that opens the session. -/
theorem session_framed (chunks : List Chunk) (ended : Bool) (schedule : List (Await × Turn))
    (hdrops : (Await.parseLine, Turn.dropped) ∉ schedule) (calls : ℕ) :
    (session p calls (fresh chunks ended schedule)).consumed ++
        (session p calls (fresh chunks ended schedule)).unread = chunks.flatMap Chunk.bytes ∧
      handedLines (session p calls (fresh chunks ended schedule)).trace =
        (pieces newline (session p calls (fresh chunks ended schedule)).consumed).filter
          (fun line => line.length ≤ maxMcpStdinLineBytes) ∧
      EarlyReturns p (session p calls (fresh chunks ended schedule)).trace ∧
      OpeningsReturned p (session p calls (fresh chunks ended schedule)).trace := by
  have hfresh : Live p (chunks.flatMap Chunk.bytes) (fresh chunks ended schedule) := by
    refine ⟨⟨rfl, ?_, hdrops⟩, .inr (.inl ⟨rfl, unfinished_nil.symm, Nat.zero_le _⟩), ?_, ?_, nofun⟩
    · rw [linesWithin]
      simp [handedLines, fresh]
    · intro before message raw after h
      exact absurd h (by simp [fresh])
    · intro before line after message raw h
      exact absurd h (by simp [fresh])
  obtain ⟨hstands, hadmitted⟩ := session_spec calls hfresh
  exact ⟨hstands.stream_eq, hstands.handed, hadmitted.early, hadmitted.returned⟩

def noMessages : Protocol Unit Unit where
  floatBits := fun _ => none
  parseError := fun _ => ""
  decode := fun _ => .error ""
  request := fun _ => none
  decodeId := fun _ => none

/-- A call is dropped in the middle of a line. -/
theorem session_framed_halfLine :
    handedLines (session noMessages 2 (fresh [⟨120, []⟩, ⟨121, [10]⟩] true
      [(.fillBuf, .ready), (.fillBuf, .dropped), (.fillBuf, .ready), (.parseLine, .ready)])).trace = [[120, 121]] := by
  obtain ⟨-, hhanded, -, -⟩ := session_framed noMessages [⟨120, []⟩, ⟨121, [10]⟩] true
    [(.fillBuf, .ready), (.fillBuf, .dropped), (.fillBuf, .ready), (.parseLine, .ready)] (by decide) 2
  rw [hhanded]
  decide +kernel

/-- A call is dropped while `parse_line` answers the line `x`: the next line `y` is handed out as `xy`. -/
theorem dropped_answer_merges :
    handedLines (session noMessages 2 (fresh [⟨120, [10]⟩, ⟨121, [10]⟩] true
        [(.fillBuf, .ready), (.parseLine, .dropped), (.fillBuf, .ready), (.parseLine, .ready)])).trace =
      [[120], [120, 121]] ∧
    (pieces newline [120, 10, 121, 10]).filter (fun line => line.length ≤ maxMcpStdinLineBytes) = [[120], [121]] := by
  decide +kernel

end Emucap.McpStdio
