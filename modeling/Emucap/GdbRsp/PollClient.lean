import Emucap.GdbRsp.Polling

/-!
# Polling a client

Where the system answers at once (`Calm`) the client's poll is `poll` on its buffer and the reads to come, and
its `read_packet` is `reading` on all bytes it has or will get. For every other system a poll still reads in
nonblocking mode only, and one that finds no packet only adds what it received to the buffer.
-/

namespace Emucap.GdbRsp

open Emucap.Lib

/-! ## A system that answers at once -/

/-- Options can be set, writes take all bytes, and no time passes. -/
structure Calm (c : GdbRspClient) : Prop where
  options : c.stream.options = []
  accepts : c.stream.accepts = []
  clock : ∀ i, c.stream.clock i = 0
  deadline : ∀ d, c.ioDeadline = some d → 0 < d
  readTimeout : c.stream.readTimeout ≠ some 0
  writeTimeout : c.stream.writeTimeout ≠ some 0

section calm
variable {ε : Type} {c : GdbRspClient} {E : IoError → GdbRspClient → Prop}

theorem calm_optionCall (h : Calm c) {Q : Unit → GdbRspClient → Prop} (hq : Q () c) : wp optionCall Q E c := by
  unfold optionCall
  rw [wp_bind, wp_get, h.options]
  exact hq

theorem calm_getReadTimeout (h : Calm c) {Q : Option Duration → GdbRspClient → Prop}
    (hq : Q c.stream.readTimeout c) : wp getReadTimeout Q E c := by
  unfold getReadTimeout
  rw [wp_bind]
  exact calm_optionCall h hq

theorem calm_getWriteTimeout (h : Calm c) {Q : Option Duration → GdbRspClient → Prop}
    (hq : Q c.stream.writeTimeout c) : wp getWriteTimeout Q E c := by
  unfold getWriteTimeout
  rw [wp_bind]
  exact calm_optionCall h hq

theorem calm_setReadTimeout (h : Calm c) {timeout : Option Duration} (hne : timeout ≠ some 0)
    {Q : Unit → GdbRspClient → Prop} (hq : ∀ t, Calm t → Idle c t → Q () t) : wp (setReadTimeout timeout) Q E c := by
  unfold setReadTimeout
  rw [if_neg hne, wp_bind]
  refine calm_optionCall h (hq _ ?_ ⟨⟨rfl, rfl, rfl, rfl, rfl, rfl, rfl⟩, rfl, rfl⟩)
  exact ⟨h.options, h.accepts, h.clock, h.deadline, hne, h.writeTimeout⟩

theorem calm_setWriteTimeout (h : Calm c) {timeout : Option Duration} (hne : timeout ≠ some 0)
    {Q : Unit → GdbRspClient → Prop} (hq : ∀ t, Calm t → Idle c t → Q () t) : wp (setWriteTimeout timeout) Q E c := by
  unfold setWriteTimeout
  rw [if_neg hne, wp_bind]
  refine calm_optionCall h (hq _ ?_ ⟨⟨rfl, rfl, rfl, rfl, rfl, rfl, rfl⟩, rfl, rfl⟩)
  exact ⟨h.options, h.accepts, h.clock, h.deadline, h.readTimeout, hne⟩

theorem calm_setNonblocking (h : Calm c) (mode : Bool) {Q : Unit → GdbRspClient → Prop}
    (hq : ∀ t, Calm t → Idle c t → Q () t) : wp (setNonblocking mode) Q E c := by
  unfold setNonblocking
  rw [wp_bind]
  refine calm_optionCall h (hq _ ?_ ⟨⟨rfl, rfl, rfl, rfl, rfl, rfl, rfl⟩, rfl, rfl⟩)
  exact ⟨h.options, h.accepts, h.clock, h.deadline, h.readTimeout, h.writeTimeout⟩

theorem calm_instantNow {E : ε → GdbRspClient → Prop} (h : Calm c) {Q : ℕ → GdbRspClient → Prop}
    (hq : ∀ t, Calm t → Idle c t → Q 0 t) : wp (instantNow : EStateM ε GdbRspClient ℕ) Q E c := by
  have hrun := hq { c with stream := { c.stream with ticks := c.stream.ticks + 1 } }
    ⟨h.options, h.accepts, h.clock, h.deadline, h.readTimeout, h.writeTimeout⟩
    ⟨⟨rfl, rfl, rfl, rfl, rfl, rfl, rfl⟩, rfl, rfl⟩
  rw [← h.clock c.stream.ticks] at hrun
  exact hrun

theorem calm_remainingBudget (h : Calm c) {Q : Option Duration → GdbRspClient → Prop}
    (hq : ∀ r t, r ≠ some 0 → Calm t → Idle c t → Q r t) : wp remainingBudget Q E c := by
  unfold remainingBudget
  rw [wp_bind, wp_get]
  cases hdeadline : c.ioDeadline with
  | none => exact hq none c (by simp) h (Idle.refl c)
  | some d =>
    have hpos := h.deadline d hdeadline
    rw [wp_bind]
    refine calm_instantNow h fun t ht hidle => ?_
    rw [if_pos hpos]
    refine hq (some (d - 0)) t (fun hzero => ?_) ht hidle
    rw [Option.some.injEq] at hzero
    exact absurd hzero (Nat.sub_ne_zero_of_lt hpos)

theorem calm_limitWrite (h : Calm c) {Q : Unit → GdbRspClient → Prop} (hq : ∀ t, Calm t → Idle c t → Q () t) :
    wp limitWrite Q E c := by
  unfold limitWrite
  rw [wp_bind]
  refine calm_remainingBudget h fun r t hr ht hidle => ?_
  cases r with
  | none => exact hq t ht hidle
  | some d => exact wp_explain.mpr (calm_setWriteTimeout ht hr fun u hu hidle' => hq u hu (hidle.trans hidle'))

theorem calm_limitRead (h : Calm c) {r : Option Duration} (hr : r ≠ some 0) {Q : Unit → GdbRspClient → Prop}
    (hq : ∀ t, Calm t → Idle c t → Q () t) : wp (limitRead r) Q E c := by
  cases r with
  | none => exact hq c h (Idle.refl c)
  | some d => exact wp_explain.mpr (calm_setReadTimeout h hr hq)

theorem calm_writeBytes (h : Calm c) (bytes : List UInt8) {Q : Unit → GdbRspClient → Prop}
    (hq : ∀ t, Calm t → Held c t → Q () t) : wp (writeBytes bytes) Q E c := by
  unfold writeBytes
  rw [wp_bind, wp_get, h.accepts]
  cases bytes with
  | nil => exact hq c h (Held.refl c)
  | cons b bytes =>
    rw [writing, wp_bind]
    refine calm_limitWrite h fun t ht hidle => ?_
    have hheld := hidle.toHeld
    exact hq _ ⟨ht.options, ht.accepts, ht.clock, ht.deadline, ht.readTimeout, ht.writeTimeout⟩
      ⟨hheld.received, hheld.arrivals, hheld.reads, hheld.buf, hheld.poisoned, hheld.ioDeadline, hheld.timeout⟩

theorem calm_readByte_buffered (h : Calm c) {b : UInt8} {rest : List UInt8} (hbuf : c.buf = b :: rest)
    {Q : UInt8 → GdbRspClient → Prop} (hq : ∀ t, Calm t → Held { c with buf := rest } t → Q b t) :
    wp readByte Q E c := by
  unfold readByte
  rw [wp_bind]
  refine calm_remainingBudget h fun r t _ ht hidle => ?_
  rw [wp_bind, wp_get, hidle.buf, hbuf]
  have hheld := hidle.toHeld
  exact hq _ ⟨ht.options, ht.accepts, ht.clock, ht.deadline, ht.readTimeout, ht.writeTimeout⟩
    ⟨hheld.received, hheld.arrivals, hheld.reads, rfl, hheld.poisoned, hheld.ioDeadline, hheld.timeout⟩

end calm

/-! ## A client and what it will read -/

/-- A read of a socket without bytes to read, in nonblocking mode. -/
def nothingThere : IoError := ⟨.wouldBlock, "Resource temporarily unavailable"⟩

def Chunk.arrival (chunk : Chunk) : Arrival := .bytes chunk.bytes

def pollArrival : Option Chunk → Arrival
  | none => .fails nothingThere
  | some chunk => chunk.arrival

/-- A client that can be polled: its buffer, and what its polls will find. -/
structure Ready (timeout : Duration) (deadline : Option ℕ) (buf : List UInt8) (reads : List (Option Chunk))
    (c : GdbRspClient) : Prop where
  calm : Calm c
  buf : c.buf = buf
  arrivals : c.stream.arrivals = reads.map pollArrival
  poisoned : c.poisoned = false
  ioDeadline : c.ioDeadline = deadline
  timeout : c.timeout = timeout

structure Supply (s : List UInt8) (c : GdbRspClient) : Prop where
  calm : Calm c
  chunks : ∃ chunks : List Chunk, c.stream.arrivals = chunks.map Chunk.arrival ∧ s = c.buf ++ chunkBytes chunks

theorem unread_chunk (chunk : Chunk) (later : List Arrival) : unread chunk.bytes later = later := by
  rw [unread, if_pos chunk.fits]

theorem take_chunk (chunk : Chunk) : chunk.bytes.take chunkSize = chunk.bytes := List.take_of_length_le chunk.fits

def afterRead (c : GdbRspClient) (later : List Arrival) : GdbRspClient :=
  { c with stream := { c.stream with arrivals := later, reads := c.stream.reads ++ [c.stream.nonblocking] } }

def afterChunk (c : GdbRspClient) (chunk : Chunk) (later : List Arrival) : GdbRspClient :=
  { c with stream := { c.stream with
      arrivals := later, received := c.stream.received ++ chunk.bytes, reads := c.stream.reads ++ [c.stream.nonblocking] } }

theorem wp_streamRead_chunk {c : GdbRspClient} {chunk : Chunk} {later : List Arrival} {Q : List UInt8 → GdbRspClient → Prop}
    {E : IoError → GdbRspClient → Prop} (h : c.stream.arrivals = chunk.arrival :: later)
    (hq : Q chunk.bytes (afterChunk c chunk later)) : wp streamRead Q E c := by
  unfold streamRead onStream
  simp only [wp_bind, wp_modify, wp_get, h, Chunk.arrival, wp_pure]
  rw [take_chunk, unread_chunk]
  exact hq

theorem wp_streamRead_closed {c : GdbRspClient} {Q : List UInt8 → GdbRspClient → Prop}
    {E : IoError → GdbRspClient → Prop} (h : c.stream.arrivals = []) (hq : Q [] (afterRead c [])) :
    wp streamRead Q E c := by
  unfold streamRead onStream
  simp only [wp_bind, wp_modify, wp_get, h]
  exact hq

theorem wp_streamRead_nothing {c : GdbRspClient} {later : List Arrival} {Q : List UInt8 → GdbRspClient → Prop}
    {E : IoError → GdbRspClient → Prop} (h : c.stream.arrivals = pollArrival none :: later)
    (hq : E nothingThere (afterRead c later)) : wp streamRead Q E c := by
  unfold streamRead onStream
  simp only [wp_bind, wp_modify, wp_get, h, pollArrival]
  exact hq

section reads
variable {timeout : Duration} {deadline : Option ℕ} {buf : List UInt8} {reads : List (Option Chunk)}
  {c : GdbRspClient}

theorem Ready.held {t : GdbRspClient} (h : Ready timeout deadline buf reads c) (ht : Calm t) (hheld : Held c t) :
    Ready timeout deadline buf reads t :=
  ⟨ht, hheld.buf.trans h.buf, hheld.arrivals.trans h.arrivals, hheld.poisoned.trans h.poisoned,
    hheld.ioDeadline.trans h.ioDeadline, hheld.timeout.trans h.timeout⟩

theorem Supply.held {s : List UInt8} {t : GdbRspClient} (h : Supply s c) (ht : Calm t) (hheld : Held c t) :
    Supply s t := by
  obtain ⟨chunks, harrivals, hs⟩ := h.chunks
  exact ⟨ht, chunks, hheld.arrivals.trans harrivals, by rw [hheld.buf]; exact hs⟩

theorem ready_readPacket (h : Ready timeout deadline buf reads c) (hcomplete : hasCompleteBufferedPacket buf = true) :
    wp readPacket
      (fun text t => ∃ raw rest, takePacket buf reads = .packet raw rest reads ∧ text = packetText raw ∧
        Ready timeout deadline rest reads t)
      (fun _ _ => takePacket buf reads = .failed) c := by
  refine wp_readPacket (I := fun s t => Ready timeout deadline s reads t) (fun b s t ht => ?_)
    (fun bytes s t ht => ?_) (fun _ _ hfailed _ => hfailed) h (fun raw rest t hread ht => ?_)
    (fun hread _ _ _ _ => ?_) (fun hread => ?_)
  · refine calm_readByte_buffered ht.calm ht.buf fun u hu hheld => ⟨rfl, ?_⟩
    exact ⟨hu, hheld.buf, hheld.arrivals.trans ht.arrivals, hheld.poisoned.trans ht.poisoned,
      hheld.ioDeadline.trans ht.ioDeadline, hheld.timeout.trans ht.timeout⟩
  · exact calm_writeBytes ht.calm bytes fun u hu hheld => ht.held hu hheld
  · exact ⟨raw, rest, by rw [takePacket, hread], rfl, ht⟩
  · rw [takePacket, hread]
  · obtain ⟨hread', -⟩ | ⟨raw, rest, hread', -⟩ := reading_append hcomplete []
    all_goals
      rw [hread] at hread'
      cases hread'

theorem supply_readByte {E : IoError → GdbRspClient → Prop} {b : UInt8} {s : List UInt8} (h : Supply (b :: s) c) :
    wp readByte (fun a t => a = b ∧ Supply s t) E c := by
  obtain ⟨chunks, harrivals, hs⟩ := h.chunks
  cases hbuf : c.buf with
  | cons b' rest =>
    rw [hbuf, List.cons_append, List.cons.injEq] at hs
    obtain ⟨rfl, hs⟩ := hs
    refine calm_readByte_buffered h.calm hbuf fun t ht hheld => ⟨rfl, ht, chunks, ?_, ?_⟩
    · exact hheld.arrivals.trans harrivals
    · rw [hheld.buf]
      exact hs
  | nil =>
    unfold readByte
    rw [wp_bind]
    refine calm_remainingBudget h.calm fun r t hr ht hidle => ?_
    rw [wp_bind, wp_get, hidle.buf, hbuf]
    simp only
    rw [wp_bind]
    refine calm_limitRead ht hr fun u hu hidle' => ?_
    have harrivals' : u.stream.arrivals = chunks.map Chunk.arrival :=
      (hidle.trans hidle').arrivals.trans harrivals
    cases chunks with
    | nil =>
      rw [hbuf] at hs
      cases hs
    | cons chunk chunks =>
      have hchunk : chunk.bytes ++ chunkBytes chunks = b :: s := by
        rw [hs, hbuf]
        simp [chunkBytes]
      obtain ⟨tail, hbytes⟩ : ∃ tail, chunk.bytes = b :: tail := by
        cases hb : chunk.bytes with
        | nil => exact absurd hb chunk.nonempty
        | cons b' tail =>
          rw [hb, List.cons_append, List.cons.injEq] at hchunk
          exact ⟨tail, by rw [hchunk.1]⟩
      rw [wp_bind]
      refine wp_streamRead_chunk harrivals' ?_
      rw [hbytes]
      refine ⟨rfl, ⟨hu.options, hu.accepts, hu.clock, hu.deadline, hu.readTimeout, hu.writeTimeout⟩, chunks, rfl, ?_⟩
      rw [hbytes, List.cons_append, List.cons.injEq] at hchunk
      exact hchunk.2.symm

theorem supply_end {E : IoError → GdbRspClient → Prop} (h : Supply [] c) (herror : ∀ t, E connectionClosed t) :
    wp readByte (fun _ _ => False) E c := by
  obtain ⟨chunks, harrivals, hs⟩ := h.chunks
  obtain ⟨hbuf, hchunks⟩ := List.append_eq_nil_iff.mp hs.symm
  have hnil : chunks = [] := by
    cases chunks with
    | nil => rfl
    | cons chunk chunks =>
      rw [chunkBytes, List.flatMap_cons, List.append_eq_nil_iff] at hchunks
      exact absurd hchunks.1 chunk.nonempty
  subst hnil
  unfold readByte
  rw [wp_bind]
  refine calm_remainingBudget h.calm fun r t hr ht hidle => ?_
  rw [wp_bind, wp_get, hidle.buf, hbuf]
  simp only
  rw [wp_bind]
  refine calm_limitRead ht hr fun u hu hidle' => ?_
  rw [wp_bind]
  exact wp_streamRead_closed ((hidle.trans hidle').arrivals.trans harrivals) (herror _)

theorem supply_readPacket {s : List UInt8} (h : Supply s c) :
    wp readPacket
      (fun text t => ∃ raw rest, reading s = .packet raw rest ∧ text = packetText raw ∧ Supply rest t)
      (fun _ _ => ∀ raw rest, reading s ≠ .packet raw rest) c := by
  refine wp_readPacket (I := Supply) (fun b s t ht => supply_readByte ht) (fun bytes s t ht => ?_)
    (fun _ _ hfailed _ => hfailed) h (fun raw rest t hread ht => ⟨raw, rest, hread, rfl, ht⟩)
    (fun hread _ _ _ _ => by simp [hread]) (fun hread t ht => ?_)
  · exact calm_writeBytes ht.calm bytes fun u hu hheld => ht.held hu hheld
  · exact supply_end ht fun _ => by simp [hread]

end reads

/-! ## A poll -/

def Answers (timeout : Duration) (deadline : Option ℕ) (p : Polled) (reply : Option String) (t : GdbRspClient) : Prop :=
  match p with
  | .packet raw buf reads => reply = some (packetText raw) ∧ Ready timeout deadline buf reads t
  | .quiet buf reads => reply = none ∧ Ready timeout deadline buf reads t
  | .failed => False

section polls
variable {timeout : Duration} {deadline : Option ℕ} {buf : List UInt8} {reads : List (Option Chunk)}
  {c : GdbRspClient}

theorem ready_takePacket (h : Ready timeout deadline buf reads c) (hcomplete : hasCompleteBufferedPacket buf = true) :
    wp (readPacket >>= fun text => pure (some text)) (Answers timeout deadline (takePacket buf reads))
      (fun _ _ => takePacket buf reads = .failed) c := by
  rw [wp_bind]
  refine wp_mono (ready_readPacket h hcomplete) ?_ (fun _ _ hfailed => hfailed)
  rintro text t ⟨raw, rest, htake, rfl, ht⟩
  rw [wp_pure, htake]
  exact ⟨rfl, ht⟩

theorem wp_checkPendingPacketSize {Q : Unit → GdbRspClient → Prop} {E : IoError → GdbRspClient → Prop}
    (hq : pendingPacketError c.buf = none → Q () c) (he : ∀ e, pendingPacketError c.buf = some e → E e c) :
    wp checkPendingPacketSize Q E c := by
  unfold checkPendingPacketSize
  rw [wp_bind, wp_get]
  cases hpending : pendingPacketError c.buf with
  | none => exact hq hpending
  | some e => exact he e hpending

theorem ready_decodeBuffered (h : Ready timeout deadline buf reads c) :
    wp decodeBuffered (Answers timeout deadline (settle buf reads)) (fun _ _ => settle buf reads = .failed) c := by
  unfold decodeBuffered settle
  rw [wp_bind, wp_get, h.buf]
  by_cases hcomplete : hasCompleteBufferedPacket buf = true
  · rw [if_pos hcomplete, if_pos hcomplete]
    exact ready_takePacket h hcomplete
  · rw [if_neg hcomplete, if_neg hcomplete, wp_bind]
    refine wp_checkPendingPacketSize (fun hnone => ?_) (fun e hsome => ?_)
    · rw [h.buf] at hnone
      rw [hnone, wp_pure]
      exact ⟨rfl, h⟩
    · rw [h.buf] at hsome
      rw [hsome]
      rfl

theorem Ready.afterRead (h : Ready timeout deadline buf reads c) (later : List (Option Chunk)) :
    Ready timeout deadline buf later (afterRead c (later.map pollArrival)) :=
  ⟨⟨h.calm.options, h.calm.accepts, h.calm.clock, h.calm.deadline, h.calm.readTimeout, h.calm.writeTimeout⟩, h.buf, rfl,
    h.poisoned, h.ioDeadline, h.timeout⟩

theorem Ready.afterChunk {later : List (Option Chunk)} {chunk : Chunk} (h : Ready timeout deadline buf reads c) :
    Ready timeout deadline (buf ++ chunk.bytes) later
      { afterChunk c chunk (later.map pollArrival) with buf := c.buf ++ chunk.bytes } :=
  ⟨⟨h.calm.options, h.calm.accepts, h.calm.clock, h.calm.deadline, h.calm.readTimeout, h.calm.writeTimeout⟩,
    by rw [h.buf], rfl, h.poisoned, h.ioDeadline, h.timeout⟩

/-- What the read of a poll leads to: the rest of the poll succeeds or fails with it. -/
theorem ready_pollRead {Q : Except IoError Unit → GdbRspClient → Prop} {E : IoError → GdbRspClient → Prop}
    (h : Ready timeout deadline buf reads c)
    (hclosed : reads = [] → ∀ t, Ready timeout deadline buf [] t → Q (.error connectionClosed) t)
    (hquiet : ∀ later, reads = none :: later → ∀ t, Ready timeout deadline buf later t → Q (.ok ()) t)
    (hchunk : ∀ chunk later, reads = some chunk :: later → ∀ t, Ready timeout deadline (buf ++ chunk.bytes) later t →
      Q (.ok ()) t) :
    wp (attempt pollRead) Q E c := by
  unfold pollRead
  simp only [wp_attempt, wp_bind]
  have harrivals := h.arrivals
  cases reads with
  | nil => exact wp_streamRead_closed harrivals (hclosed rfl _ (h.afterRead []))
  | cons read later =>
    cases read with
    | none => exact wp_streamRead_nothing harrivals (hquiet later rfl _ (h.afterRead later))
    | some chunk =>
      refine wp_streamRead_chunk harrivals ?_
      split
      next hnil =>
        cases hbytes : chunk.bytes with
        | nil => exact absurd hbytes chunk.nonempty
        | cons b tail =>
          rw [hbytes] at hnil
          cases hnil
      next bytes hbytes =>
        cases hbytes
        exact hchunk chunk later rfl _ h.afterChunk
      next e herror => cases herror

theorem ready_recvNonblockingPacket (h : Ready timeout deadline buf reads c) :
    wp recvNonblockingPacket (Answers timeout deadline (poll buf reads)) (fun _ _ => poll buf reads = .failed) c := by
  unfold recvNonblockingPacket poll
  rw [wp_bind, wp_get, h.buf]
  by_cases hcomplete : hasCompleteBufferedPacket buf = true
  · rw [if_pos hcomplete, if_pos hcomplete]
    exact ready_takePacket h hcomplete
  · rw [if_neg hcomplete, if_neg hcomplete, wp_bind]
    refine wp_checkPendingPacketSize (fun hnone => ?_) (fun e hsome => ?_)
    · rw [h.buf] at hnone
      rw [hnone, if_neg (by simp), wp_bind]
      refine calm_getReadTimeout h.calm ?_
      rw [wp_bind]
      refine calm_setNonblocking h.calm true fun t₁ ht₁ hidle₁ => ?_
      have h₁ := h.held ht₁ hidle₁.toHeld
      rw [wp_bind]
      refine ready_pollRead h₁ (fun hnil t₂ h₂ => ?_) (fun later hcons t₂ h₂ => ?_) (fun chunk later hcons t₂ h₂ => ?_)
      all_goals
        rw [wp_bind]
        refine calm_setNonblocking h₂.calm false fun t₃ ht₃ hidle₃ => ?_
        rw [wp_bind, wp_explain]
        refine calm_setReadTimeout ht₃ h.calm.readTimeout fun t₄ ht₄ hidle₄ => ?_
        rw [wp_bind]
        have h₄ := (h₂.held ht₃ hidle₃.toHeld).held ht₄ hidle₄.toHeld
      · subst hnil
        exact rfl
      · subst hcons
        exact ready_decodeBuffered h₄
      · subst hcons
        exact ready_decodeBuffered h₄
    · rw [h.buf] at hsome
      rw [hsome]
      rfl

/-! ## A poll under its budget -/

theorem calm_restoreBudget {α : Type} (h : Calm c) {readTimeout writeTimeout : Option Duration}
    (hread : readTimeout ≠ some 0) (hwrite : writeTimeout ≠ some 0) {a : α} {Q : α → GdbRspClient → Prop}
    {E : GdbError → GdbRspClient → Prop}
    (hq : ∀ t, Calm t → Held { c with ioDeadline := none } t → Q a t) :
    wp (restoreBudget none readTimeout writeTimeout (.ok a)) Q E c := by
  unfold restoreBudget
  rw [wp_bind, wp_liftIo, wp_attempt]
  refine calm_remainingBudget h fun r t₁ _ h₁ hidle₁ => ?_
  rw [setIoDeadline, wp_bind, wp_modify, wp_bind, wp_liftIo, wp_attempt, wp_explain]
  have h₁' : Calm { t₁ with ioDeadline := none } :=
    ⟨h₁.options, h₁.accepts, h₁.clock, by simp, h₁.readTimeout, h₁.writeTimeout⟩
  refine calm_setReadTimeout h₁' hread fun t₂ h₂ hidle₂ => ?_
  rw [wp_bind, wp_liftIo, wp_attempt, wp_explain]
  refine calm_setWriteTimeout h₂ hwrite fun t₃ h₃ hidle₃ => ?_
  have hheld := hidle₁.toHeld
  refine hq t₃ h₃ (Held.trans ?_ (hidle₂.trans hidle₃).toHeld)
  exact ⟨hheld.received, hheld.arrivals, hheld.reads, hheld.buf, hheld.poisoned, rfl, hheld.timeout⟩

theorem restoreBudget_error {α : Type} (previous : Option ℕ) (readTimeout writeTimeout : Option Duration)
    (e : GdbError) (c : GdbRspClient) :
    wp (restoreBudget previous readTimeout writeTimeout (.error e : Except GdbError α)) (fun _ _ => False)
      (fun _ _ => True) c := by
  unfold restoreBudget
  refine wp_attempt_idle remainingBudget_idle fun elapsed t₁ _ => ?_
  rw [setIoDeadline, wp_bind, wp_modify]
  refine wp_attempt_idle (explain_idle (setReadTimeout_idle readTimeout) _) fun restoreRead t₂ _ => ?_
  refine wp_attempt_idle (explain_idle (setWriteTimeout_idle writeTimeout) _) fun restoreWrite t₃ _ => ?_
  rw [if_pos (by simp [isError])]
  simp only [poison, shutdown, wp_bind, wp_modify]
  exact trivial

/-- Where time stands still a budget that is accepted lasts. -/
theorem ready_recvNonblocking (h : Ready timeout none buf reads c) (hpos : 0 < timeout)
    (hlimit : timeout < instantLimit) :
    wp recvNonblocking (Answers timeout none (poll buf reads)) (fun _ _ => poll buf reads = .failed) c := by
  have husable : ∀ {d : Option ℕ} {t : GdbRspClient} {Q : Unit → GdbRspClient → Prop}
      {E : GdbError → GdbRspClient → Prop}, Ready timeout d buf reads t → Q () t → wp ensureUsable Q E t := by
    intro d t Q E ht hq
    unfold ensureUsable
    rw [wp_bind, wp_get, ht.poisoned]
    exact hq
  unfold recvNonblocking withBudget
  rw [wp_bind, wp_get, h.ioDeadline]
  simp only [h.timeout]
  rw [bounded, wp_bind]
  refine husable h ?_
  rw [wp_bind]
  refine calm_instantNow h.calm fun t₁ ht₁ hidle₁ => ?_
  have h₁ := h.held ht₁ hidle₁.toHeld
  have hdeadline : deadlineAfter 0 timeout = some (0 + timeout) := if_pos ⟨hpos, by rwa [Nat.zero_add]⟩
  rw [hdeadline]
  rw [wp_bind, wp_liftIo]
  refine calm_getReadTimeout ht₁ ?_
  rw [wp_bind, wp_liftIo]
  refine calm_getWriteTimeout ht₁ ?_
  unfold underDeadline setIoDeadline
  simp only [wp_bind, wp_get, wp_modify, wp_attempt, h₁.ioDeadline]
  have h₂ : Ready timeout (some (0 + timeout)) buf reads { t₁ with ioDeadline := some (0 + timeout) } := by
    refine ⟨⟨ht₁.options, ht₁.accepts, ht₁.clock, ?_, ht₁.readTimeout, ht₁.writeTimeout⟩, h₁.buf, h₁.arrivals,
      h₁.poisoned, rfl, h₁.timeout⟩
    intro d hd
    rw [Option.some.injEq] at hd
    rw [← hd, Nat.zero_add]
    exact hpos
  refine husable h₂ ?_
  unfold finishIo
  simp only [wp_bind, wp_attempt, wp_liftIo]
  refine wp_mono (ready_recvNonblockingPacket h₂) (fun reply t₃ hanswer => ?_) (fun e t₃ hfailed => ?_)
  · rw [wp_pure]
    have hback : ∀ {buf' reads'} {t : GdbRspClient}, Ready timeout (some (0 + timeout)) buf' reads' t →
        wp (restoreBudget none t₁.stream.readTimeout t₁.stream.writeTimeout (.ok reply))
          (fun a u => a = reply ∧ Ready timeout none buf' reads' u) (fun _ _ => poll buf reads = .failed) t := by
      intro buf' reads' t ht
      refine calm_restoreBudget ht.calm ht₁.readTimeout ht₁.writeTimeout fun u hu hheld => ⟨rfl, ?_⟩
      exact ⟨hu, hheld.buf.trans ht.buf, hheld.arrivals.trans ht.arrivals, hheld.poisoned.trans ht.poisoned,
        hheld.ioDeadline, hheld.timeout.trans ht.timeout⟩
    cases hpoll : poll buf reads with
    | packet raw buf' reads' =>
      rw [hpoll] at hanswer hback
      obtain ⟨rfl, h₃⟩ := hanswer
      refine wp_mono (hback h₃) ?_ (fun _ _ hfailed => hfailed)
      rintro reply u ⟨rfl, hu⟩
      exact ⟨rfl, hu⟩
    | quiet buf' reads' =>
      rw [hpoll] at hanswer hback
      obtain ⟨rfl, h₃⟩ := hanswer
      refine wp_mono (hback h₃) ?_ (fun _ _ hfailed => hfailed)
      rintro reply u ⟨rfl, hu⟩
      exact ⟨rfl, hu⟩
    | failed =>
      rw [hpoll] at hanswer
      exact hanswer.elim
  · rw [poison, wp_bind, wp_modify, wp_throw]
    exact wp_mono (restoreBudget_error none _ _ _ _) (fun _ _ hfalse => hfalse.elim) (fun _ _ _ => hfailed)

end polls

end Emucap.GdbRsp
