import Emucap.GdbRsp.PollClient

/-!
# Polling and blocking reads return the same packets

`polls` calls `recv_nonblocking` until it fails, `replies` does so with `read_packet`. Both lists of packets are the
same exactly if every poll is timely (`polling_agrees_iff`).
-/

namespace Emucap.GdbRsp

open Emucap.Lib

/-- The packets of up to `n` polls, and the failure that ends them. -/
def polls : ℕ → GdbRspClient → List (Option String)
  | 0, _ => []
  | n + 1, c =>
    match recvNonblocking c with
    | .ok (some text) c' => some text :: polls n c'
    | .ok none c' => polls n c'
    | .error _ _ => [none]

def replies : ℕ → GdbRspClient → List (Option String)
  | 0, _ => []
  | n + 1, c =>
    match readPacket c with
    | .ok text c' => some text :: replies n c'
    | .error _ _ => [none]

theorem polls_eq {timeout : Duration} (hpos : 0 < timeout) (hlimit : timeout < instantLimit) (n : ℕ)
    {buf : List UInt8} {reads : List (Option Chunk)} {c : GdbRspClient} (h : Ready timeout none buf reads c) :
    polls n c = polled n buf reads := by
  induction n generalizing buf reads c with
  | zero => rfl
  | succ n ih =>
    have hpoll := ready_recvNonblocking h hpos hlimit
    rw [polls, polled]
    unfold wp at hpoll
    cases hrun : recvNonblocking c with
    | ok reply t =>
      simp only [hrun] at hpoll
      cases hp : poll buf reads with
      | packet raw buf' reads' =>
        rw [hp] at hpoll
        obtain ⟨rfl, ht⟩ := hpoll
        simp only [Polled.outcomes, ih ht]
      | quiet buf' reads' =>
        rw [hp] at hpoll
        obtain ⟨rfl, ht⟩ := hpoll
        simp only [Polled.outcomes, ih ht]
      | failed =>
        rw [hp] at hpoll
        exact hpoll.elim
    | error e t =>
      simp only [hrun] at hpoll
      rw [hpoll]
      rfl

theorem replies_eq (n : ℕ) {s : List UInt8} {c : GdbRspClient} (h : Supply s c) : replies n c = packets n s := by
  induction n generalizing s c with
  | zero => rfl
  | succ n ih =>
    have hread := supply_readPacket h
    rw [replies]
    unfold wp at hread
    cases hrun : readPacket c with
    | ok text t =>
      simp only [hrun] at hread
      obtain ⟨raw, rest, hs, rfl, ht⟩ := hread
      simp only [packets, hs, ih ht]
    | error e t =>
      simp only [hrun] at hread
      rw [packets_stuck hread (Nat.succ_pos n)]

/-! ## Whatever the system does -/

/-- All reads from one client to another are made in nonblocking mode. -/
def PollsOnly (c t : GdbRspClient) : Prop :=
  ∃ modes, t.stream.reads = c.stream.reads ++ modes ∧ ∀ mode ∈ modes, mode = true

theorem PollsOnly.of_eq {c t : GdbRspClient} (h : t.stream.reads = c.stream.reads) : PollsOnly c t :=
  ⟨[], by rw [h, List.append_nil], by simp⟩

theorem PollsOnly.trans {c t u : GdbRspClient} (h : PollsOnly c t) (h' : PollsOnly t u) : PollsOnly c u := by
  obtain ⟨modes, hmodes, hall⟩ := h
  obtain ⟨modes', hmodes', hall'⟩ := h'
  refine ⟨modes ++ modes', by rw [hmodes', hmodes, List.append_assoc], fun mode hmode => ?_⟩
  obtain hmem | hmem := List.mem_append.mp hmode
  · exact hall mode hmem
  · exact hall' mode hmem

structure Quiet (c : GdbRspClient) (chunk : List UInt8) (t : GdbRspClient) : Prop where
  buf : t.buf = c.buf ++ chunk
  received : t.stream.received = c.stream.received ++ chunk
  sent : t.stream.sent = c.stream.sent
  readTimeout : t.stream.readTimeout = c.stream.readTimeout
  writeTimeout : t.stream.writeTimeout = c.stream.writeTimeout
  nonblocking : t.stream.nonblocking = false
  poisoned : t.poisoned = c.poisoned
  ioDeadline : t.ioDeadline = c.ioDeadline
  timeout : t.timeout = c.timeout

theorem limitWrite_idle : Keeps Idle limitWrite := by
  refine Idle.bind remainingBudget_idle fun r => ?_
  cases r with
  | none => exact keeps_pure Idle.refl _
  | some d => exact explain_idle (setWriteTimeout_idle (some d)) _

theorem writing_held (accepts : List Acceptance) (bytes : List UInt8) : Keeps Held (writing accepts bytes) := by
  have hlimit : Keeps Held limitWrite := (limitWrite_idle).mono (·.toHeld)
  have haccepts : ∀ later, Keeps Held (onStream ({ · with accepts := later })) :=
    fun later => keeps_modify fun _ => ⟨rfl, rfl, rfl, rfl, rfl, rfl, rfl⟩
  have hsent : ∀ taken, Keeps Held (recordSent taken) :=
    fun taken => keeps_modify fun _ => ⟨rfl, rfl, rfl, rfl, rfl, rfl, rfl⟩
  induction accepts generalizing bytes with
  | nil =>
    cases bytes with
    | nil => exact keeps_pure Held.refl _
    | cons b bytes => exact hlimit.bind (fun _ => hsent _) Held.trans
  | cons accept later ih =>
    cases bytes with
    | nil =>
      rw [writing.eq_def]
      exact keeps_pure Held.refl _
    | cons b bytes =>
      cases accept with
      | takes count =>
        cases count with
        | zero =>
          exact hlimit.bind (fun _ => (haccepts later).bind (fun _ => keeps_throw Held.refl _) Held.trans) Held.trans
        | succ n =>
          refine hlimit.bind (fun _ => (haccepts later).bind (fun _ => ?_) Held.trans) Held.trans
          exact (hsent _).bind (fun _ => ih _) Held.trans
      | fails e =>
        refine hlimit.bind (fun _ => (haccepts later).bind (fun _ => ?_) Held.trans) Held.trans
        split_ifs
        · exact ih _
        · exact keeps_throw Held.refl _

theorem writeBytes_held (bytes : List UInt8) : Keeps Held (writeBytes bytes) :=
  (keeps_get Held.refl).bind (fun _ => writing_held _ _) Held.trans

theorem readByte_buffered {c : GdbRspClient} {b : UInt8} {rest : List UInt8} (hbuf : c.buf = b :: rest) :
    wp readByte (fun a t => a = b ∧ Held { c with buf := rest } t) (fun _ t => Held c t) c := by
  unfold readByte
  rw [wp_bind]
  refine wp_mono (remainingBudget_idle c) (fun r t hidle => ?_) (fun _ _ hidle => hidle.toHeld)
  rw [wp_bind, wp_get, hidle.buf, hbuf]
  have hheld := hidle.toHeld
  exact ⟨rfl, hheld.received, hheld.arrivals, hheld.reads, rfl, hheld.poisoned, hheld.ioDeadline, hheld.timeout⟩

theorem readPacket_buffered {c : GdbRspClient} (hcomplete : hasCompleteBufferedPacket c.buf = true) :
    wp readPacket (fun _ t => t.stream.reads = c.stream.reads) (fun _ t => t.stream.reads = c.stream.reads) c := by
  refine wp_readPacket (I := fun s t => t.buf = s ∧ t.stream.reads = c.stream.reads) (fun b s t ht => ?_)
    (fun bytes s t ht => ?_) (fun _ _ ht _ => ht) ⟨rfl, rfl⟩ (fun _ _ _ _ ht => ht.2) (fun _ _ _ _ ht => ht.2)
    (fun hread => ?_)
  · refine wp_mono (readByte_buffered ht.1) ?_ (fun _ u hu => hu.reads.trans ht.2)
    rintro a u ⟨rfl, hu⟩
    exact ⟨rfl, hu.buf, hu.reads.trans ht.2⟩
  · exact wp_mono (writeBytes_held bytes t) (fun _ u hu => ⟨hu.buf.trans ht.1, hu.reads.trans ht.2⟩)
      (fun _ u hu => hu.reads.trans ht.2)
  · obtain ⟨hread', -⟩ | ⟨raw, rest, hread', -⟩ := reading_append hcomplete []
    all_goals
      rw [hread] at hread'
      cases hread'

/-! ### One read -/

structure Grew (c : GdbRspClient) (chunk : List UInt8) (t : GdbRspClient) : Prop where
  reads : t.stream.reads = c.stream.reads ++ [c.stream.nonblocking]
  received : t.stream.received = c.stream.received ++ chunk
  buf : t.buf = c.buf
  sent : t.stream.sent = c.stream.sent
  writeTimeout : t.stream.writeTimeout = c.stream.writeTimeout
  poisoned : t.poisoned = c.poisoned
  ioDeadline : t.ioDeadline = c.ioDeadline
  timeout : t.timeout = c.timeout

theorem streamRead_grew (c : GdbRspClient) :
    wp streamRead (fun chunk t => Grew c chunk t) (fun _ t => Grew c [] t) c := by
  unfold streamRead onStream
  simp only [wp_bind, wp_modify, wp_get]
  cases harrivals : c.stream.arrivals with
  | nil => exact ⟨rfl, (List.append_nil _).symm, rfl, rfl, rfl, rfl, rfl, rfl⟩
  | cons arrival later =>
    cases arrival with
    | bytes chunk => exact ⟨rfl, rfl, rfl, rfl, rfl, rfl, rfl, rfl⟩
    | fails e => exact ⟨rfl, (List.append_nil _).symm, rfl, rfl, rfl, rfl, rfl, rfl⟩

theorem pollRead_grew (c : GdbRspClient) :
    wp pollRead (fun _ t => ∃ chunk, t.buf = c.buf ++ chunk ∧ Grew c chunk { t with buf := c.buf })
      (fun _ t => t.stream.reads = c.stream.reads ++ [c.stream.nonblocking]) c := by
  unfold pollRead
  rw [wp_bind, wp_attempt]
  refine wp_mono (streamRead_grew c) (fun chunk t ht => ?_) (fun e t ht => ?_)
  · cases chunk with
    | nil => exact ht.reads
    | cons b bytes =>
      refine ⟨b :: bytes, congrArg (· ++ b :: bytes) ht.buf, ?_⟩
      exact ⟨ht.reads, ht.received, rfl, ht.sent, ht.writeTimeout, ht.poisoned, ht.ioDeadline, ht.timeout⟩
  · dsimp only
    split_ifs
    · refine ⟨[], by rw [ht.buf, List.append_nil], ?_⟩
      exact ⟨ht.reads, ht.received, rfl, ht.sent, ht.writeTimeout, ht.poisoned, ht.ioDeadline, ht.timeout⟩
    · exact ht.reads

/-! ### Options around the read -/

theorem setReadTimeout_sets (timeout : Option Duration) (c : GdbRspClient) :
    wp (setReadTimeout timeout)
      (fun _ t => Idle c t ∧ t.stream.readTimeout = timeout ∧ t.stream.writeTimeout = c.stream.writeTimeout ∧
        t.stream.nonblocking = c.stream.nonblocking)
      (fun _ t => Idle c t) c := by
  unfold setReadTimeout
  split_ifs
  · exact Idle.refl c
  · rw [wp_bind]
    refine wp_mono (optionCall_untouched c) (fun _ t ht => ?_) (fun _ t ht => ht.toIdle)
    have hheld := ht.toHeld
    exact ⟨⟨⟨hheld.received, hheld.arrivals, hheld.reads, hheld.buf, hheld.poisoned, hheld.ioDeadline, hheld.timeout⟩,
      ht.sent, ht.accepts⟩, rfl, ht.writeTimeout, ht.nonblocking⟩

theorem setWriteTimeout_sets (timeout : Option Duration) (c : GdbRspClient) :
    wp (setWriteTimeout timeout)
      (fun _ t => Idle c t ∧ t.stream.writeTimeout = timeout ∧ t.stream.readTimeout = c.stream.readTimeout ∧
        t.stream.nonblocking = c.stream.nonblocking)
      (fun _ t => Idle c t) c := by
  unfold setWriteTimeout
  split_ifs
  · exact Idle.refl c
  · rw [wp_bind]
    refine wp_mono (optionCall_untouched c) (fun _ t ht => ?_) (fun _ t ht => ht.toIdle)
    have hheld := ht.toHeld
    exact ⟨⟨⟨hheld.received, hheld.arrivals, hheld.reads, hheld.buf, hheld.poisoned, hheld.ioDeadline, hheld.timeout⟩,
      ht.sent, ht.accepts⟩, rfl, ht.readTimeout, ht.nonblocking⟩

theorem setNonblocking_sets (mode : Bool) (c : GdbRspClient) :
    wp (setNonblocking mode)
      (fun _ t => Idle c t ∧ t.stream.nonblocking = mode ∧ t.stream.readTimeout = c.stream.readTimeout ∧
        t.stream.writeTimeout = c.stream.writeTimeout)
      (fun _ t => Idle c t) c := by
  unfold setNonblocking
  rw [wp_bind]
  refine wp_mono (optionCall_untouched c) (fun _ t ht => ?_) (fun _ t ht => ht.toIdle)
  have hheld := ht.toHeld
  exact ⟨⟨⟨hheld.received, hheld.arrivals, hheld.reads, hheld.buf, hheld.poisoned, hheld.ioDeadline, hheld.timeout⟩,
    ht.sent, ht.accepts⟩, rfl, ht.readTimeout, ht.writeTimeout⟩

/-! ### The poll -/

def Polls {ε : Type} (operation : EStateM ε GdbRspClient (Option String)) : Prop :=
  ∀ c, wp operation (fun reply t => PollsOnly c t ∧ (reply = none → ∃ chunk, Quiet c chunk t))
    (fun _ t => PollsOnly c t) c

theorem decodeBuffered_reads (c : GdbRspClient) :
    wp decodeBuffered (fun reply t => t.stream.reads = c.stream.reads ∧ (reply = none → t = c))
      (fun _ t => t.stream.reads = c.stream.reads) c := by
  unfold decodeBuffered
  rw [wp_bind, wp_get]
  by_cases hcomplete : hasCompleteBufferedPacket c.buf = true
  · rw [if_pos hcomplete, wp_bind]
    exact wp_mono (readPacket_buffered hcomplete) (fun _ _ ht => ⟨ht, fun h => by cases h⟩) (fun _ _ ht => ht)
  · rw [if_neg hcomplete, wp_bind]
    exact wp_checkPendingPacketSize (fun _ => ⟨rfl, fun _ => rfl⟩) (fun _ _ => rfl)

theorem recvNonblockingPacket_polls : Polls recvNonblockingPacket := by
  intro c
  unfold recvNonblockingPacket
  rw [wp_bind, wp_get]
  by_cases hcomplete : hasCompleteBufferedPacket c.buf = true
  · rw [if_pos hcomplete, wp_bind]
    refine wp_mono (readPacket_buffered hcomplete) (fun _ t ht => ?_) (fun _ t ht => .of_eq ht)
    exact ⟨.of_eq ht, fun h => by cases h⟩
  · rw [if_neg hcomplete, wp_bind]
    refine wp_checkPendingPacketSize (fun _ => ?_) (fun _ _ => .of_eq rfl)
    rw [wp_bind]
    refine wp_mono (getReadTimeout_returns c) ?_ (fun _ t ht => .of_eq ht.reads)
    rintro previous t₁ ⟨rfl, h₁⟩
    rw [wp_bind]
    refine wp_mono (setNonblocking_sets true t₁) ?_ (fun _ t ht => .of_eq (ht.reads.trans h₁.reads))
    rintro - t₂ ⟨h₂, hmode, -, hwrite₂⟩
    -- whatever the read finds, the socket is back in blocking mode before it is looked at
    have hrest : ∀ r t₃, PollsOnly c t₃ →
        (∀ u, r = .ok u → ∃ chunk, t₃.buf = c.buf ++ chunk ∧ Grew t₂ chunk { t₃ with buf := t₂.buf }) →
        wp (do
          setNonblocking false
          explain ("GDB poll restore timeout " ++ debugTimeout c.stream.readTimeout)
            (setReadTimeout c.stream.readTimeout)
          ofResult r
          decodeBuffered)
          (fun reply t => PollsOnly c t ∧ (reply = none → ∃ chunk, Quiet c chunk t)) (fun _ t => PollsOnly c t) t₃ := by
      intro r t₃ hpolls hgrew
      rw [wp_bind]
      refine wp_mono (setNonblocking_sets false t₃) ?_ (fun _ t ht => hpolls.trans (.of_eq ht.reads))
      rintro - t₄ ⟨h₄, hmode₄, -, hwrite₄⟩
      rw [wp_bind, wp_explain]
      refine wp_mono (setReadTimeout_sets _ t₄) ?_ (fun _ t ht => hpolls.trans (.of_eq (ht.reads.trans h₄.reads)))
      rintro - t₅ ⟨h₅, hread₅, hwrite₅, hmode₅⟩
      have h₃₅ := h₄.trans h₅
      have hpolls₅ : PollsOnly c t₅ := hpolls.trans (.of_eq h₃₅.reads)
      cases r with
      | error e => exact hpolls₅
      | ok u =>
        obtain ⟨chunk, hbuf, hgrew⟩ := hgrew u rfl
        refine wp_mono (decodeBuffered_reads t₅) (fun reply t ht => ?_) (fun _ t ht => hpolls₅.trans (.of_eq ht))
        refine ⟨hpolls₅.trans (.of_eq ht.1), fun hnone => ⟨chunk, ?_⟩⟩
        rw [ht.2 hnone]
        have h₁₂ := h₁.toIdle.trans h₂
        exact {
          buf := h₃₅.buf.trans hbuf
          received := by rw [h₃₅.received, hgrew.received, h₁₂.received]
          sent := h₃₅.sent.trans (hgrew.sent.trans h₁₂.sent)
          readTimeout := hread₅
          writeTimeout := by
            rw [hwrite₅, hwrite₄, ← h₁.writeTimeout, ← hwrite₂]
            exact hgrew.writeTimeout
          nonblocking := hmode₅.trans hmode₄
          poisoned := h₃₅.poisoned.trans (hgrew.poisoned.trans h₁₂.poisoned)
          ioDeadline := h₃₅.ioDeadline.trans (hgrew.ioDeadline.trans h₁₂.ioDeadline)
          timeout := h₃₅.timeout.trans (hgrew.timeout.trans h₁₂.timeout) }
    have hmodes : ∀ t₃ : GdbRspClient, t₃.stream.reads = t₂.stream.reads ++ [t₂.stream.nonblocking] → PollsOnly c t₃ := by
      intro t₃ hreads
      refine ⟨[true], by rw [hreads, h₂.reads, h₁.reads, hmode], by simp⟩
    rw [wp_bind, wp_attempt]
    refine wp_mono (pollRead_grew t₂) ?_ (fun e t₃ ht => hrest (.error e) t₃ (hmodes t₃ ht) fun _ h => by cases h)
    rintro u t₃ ⟨chunk, hbuf, hgrew⟩
    refine hrest (.ok u) t₃ (hmodes t₃ hgrew.reads) fun _ _ => ⟨chunk, ?_, hgrew⟩
    rw [hbuf, h₂.buf, h₁.buf]

/-! ### The budget of a poll -/

/-- What `bounded` leaves behind where nothing failed. -/
structure Restored (c : GdbRspClient) (previous : Option ℕ) (readTimeout writeTimeout : Option Duration)
    (t : GdbRspClient) : Prop where
  buf : t.buf = c.buf
  received : t.stream.received = c.stream.received
  sent : t.stream.sent = c.stream.sent
  nonblocking : t.stream.nonblocking = c.stream.nonblocking
  readTimeout : t.stream.readTimeout = readTimeout
  writeTimeout : t.stream.writeTimeout = writeTimeout
  poisoned : t.poisoned = c.poisoned
  ioDeadline : t.ioDeadline = previous
  timeout : t.timeout = c.timeout

theorem restoreBudget_restores {α : Type} (previous : Option ℕ) (readTimeout writeTimeout : Option Duration)
    (result : Except GdbError α) (c : GdbRspClient) :
    wp (restoreBudget previous readTimeout writeTimeout result)
      (fun a t => result = .ok a ∧ t.stream.reads = c.stream.reads ∧ Restored c previous readTimeout writeTimeout t)
      (fun _ t => t.stream.reads = c.stream.reads) c := by
  unfold restoreBudget
  rw [wp_bind, wp_liftIo, wp_attempt]
  have hrest : ∀ elapsed (t₁ : GdbRspClient), Untouched c t₁ →
      wp (do
        setIoDeadline previous
        let restoreRead ← liftIo (attempt (explain ("GDB restore read timeout " ++ debugTimeout readTimeout)
          (setReadTimeout readTimeout)))
        let restoreWrite ← liftIo (attempt (explain ("GDB restore write timeout " ++ debugTimeout writeTimeout)
          (setWriteTimeout writeTimeout)))
        if isError result || isError elapsed || isError restoreRead || isError restoreWrite then do
          poison
          shutdown
        boundedResult result elapsed restoreRead restoreWrite)
        (fun a t => result = .ok a ∧ t.stream.reads = c.stream.reads ∧ Restored c previous readTimeout writeTimeout t)
        (fun _ t => t.stream.reads = c.stream.reads) t₁ := by
    intro elapsed t₁ h₁
    have hend : ∀ restoreRead restoreWrite (t : GdbRspClient), t.stream.reads = c.stream.reads →
        (isError restoreRead = false → isError restoreWrite = false →
          Restored c previous readTimeout writeTimeout t) →
        wp (do
          if isError result || isError elapsed || isError restoreRead || isError restoreWrite then do
            poison
            shutdown
          boundedResult result elapsed restoreRead restoreWrite)
          (fun a t => result = .ok a ∧ t.stream.reads = c.stream.reads ∧ Restored c previous readTimeout writeTimeout t)
          (fun _ t => t.stream.reads = c.stream.reads) t := by
      intro restoreRead restoreWrite t hreads hrestored
      split_ifs with herror
      · simp only [poison, shutdown, wp_bind, wp_modify]
        refine wp_mono (boundedResult_spec result elapsed restoreRead restoreWrite _) ?_ ?_
        · rintro a u ⟨-, -, hnone⟩
          rw [hnone] at herror
          cases herror
        · rintro e u ⟨rfl, -⟩
          exact hreads
      · refine wp_mono (boundedResult_spec result elapsed restoreRead restoreWrite t) ?_ ?_
        · rintro a u ⟨rfl, hok, hnone⟩
          simp only [Bool.or_eq_false_iff] at hnone
          exact ⟨hok, hreads, hrestored hnone.1.2 hnone.2⟩
        · rintro e u ⟨rfl, -⟩
          exact hreads
    rw [setIoDeadline, wp_bind, wp_modify, wp_bind, wp_liftIo, wp_attempt, wp_explain]
    refine wp_mono (setReadTimeout_sets readTimeout _) ?_ (fun e t₂ h₂ => ?_)
    · rintro - t₂ ⟨h₂, hread₂, -, hmode₂⟩
      rw [wp_bind, wp_liftIo, wp_attempt, wp_explain]
      refine wp_mono (setWriteTimeout_sets writeTimeout t₂) ?_ (fun e t₃ h₃ => ?_)
      · rintro - t₃ ⟨h₃, hwrite₃, hread₃, hmode₃⟩
        have h₂₃ := h₂.trans h₃
        refine hend _ _ t₃ (h₂₃.reads.trans h₁.reads) fun _ _ => ?_
        exact ⟨h₂₃.buf.trans h₁.buf, h₂₃.received.trans h₁.received, h₂₃.sent.trans h₁.sent,
          hmode₃.trans (hmode₂.trans h₁.nonblocking), hread₃.trans hread₂, hwrite₃, h₂₃.poisoned.trans h₁.poisoned,
          h₂₃.ioDeadline, h₂₃.timeout.trans h₁.timeout⟩
      · exact hend _ _ t₃ ((h₂.trans h₃).reads.trans h₁.reads) fun _ hnone => by cases hnone
    · rw [wp_bind, wp_liftIo, wp_attempt, wp_explain]
      refine wp_mono (setWriteTimeout_idle writeTimeout t₂) (fun _ t₃ h₃ => ?_) (fun e t₃ h₃ => ?_)
      · exact hend _ _ t₃ ((h₂.trans h₃).reads.trans h₁.reads) fun hnone _ => by cases hnone
      · exact hend _ _ t₃ ((h₂.trans h₃).reads.trans h₁.reads) fun hnone _ => by cases hnone
  exact wp_mono (remainingBudget_untouched c) (fun r t₁ h₁ => hrest (.ok r) t₁ h₁)
    (fun e t₁ h₁ => hrest (.error e) t₁ h₁)

theorem ensureUsable_same (c : GdbRspClient) : wp ensureUsable (fun _ t => t = c) (fun _ t => t = c) c := by
  unfold ensureUsable
  rw [wp_bind, wp_get]
  split_ifs
  · exact rfl
  · exact rfl

theorem usable_polls {operation : GdbM (Option String)} (hop : Polls operation) :
    Polls (ensureUsable >>= fun _ => operation) := by
  intro c
  rw [wp_bind]
  refine wp_mono (ensureUsable_same c) ?_ ?_
  · rintro - t rfl
    exact hop t
  · rintro e t rfl
    exact .of_eq rfl

theorem finishIo_polls {operation : IoM (Option String)} (hop : Polls operation) : Polls (finishIo operation) := by
  intro c
  unfold finishIo
  rw [wp_bind, wp_attempt, wp_liftIo]
  refine wp_mono (hop c) (fun reply t ht => ht) (fun e t ht => ?_)
  rw [poison, wp_bind, wp_modify]
  exact ht.trans (.of_eq rfl)

theorem bounded_polls {operation : GdbM (Option String)} (hop : Polls operation) (budget : Duration) :
    Polls (bounded budget operation) := by
  refine usable_polls fun c => ?_
  rw [wp_bind]
  refine wp_mono (instantNow_untouched c) (fun now t₁ h₁ => ?_) (fun _ _ h₁ => .of_eq h₁.reads)
  cases deadlineAfter now budget with
  | none => exact .of_eq h₁.reads
  | some deadline =>
    rw [wp_bind, wp_liftIo]
    refine wp_mono (getReadTimeout_returns t₁) ?_ (fun _ t ht => .of_eq (h₁.trans ht).reads)
    rintro - t₂ ⟨rfl, h₂⟩
    rw [wp_bind, wp_liftIo]
    refine wp_mono (getWriteTimeout_returns t₂) ?_ (fun _ t ht => .of_eq ((h₁.trans h₂).trans ht).reads)
    rintro - t₃ ⟨rfl, h₃⟩
    have h₁₃ := (h₁.trans h₂).trans h₃
    unfold underDeadline setIoDeadline
    rw [wp_bind, wp_get, wp_bind, wp_modify, wp_bind, wp_attempt]
    refine wp_mono (hop _) ?_ (fun e t₄ h₄ => ?_)
    · rintro reply t₄ ⟨h₄, hquiet⟩
      have hpolls : PollsOnly c t₄ := .trans (.of_eq h₁₃.reads) h₄
      refine wp_mono (restoreBudget_restores _ _ _ _ t₄) ?_ (fun _ t₅ h₅ => hpolls.trans (.of_eq h₅))
      rintro reply' t₅ ⟨hreply, hreads, h₅⟩
      cases hreply
      refine ⟨hpolls.trans (.of_eq hreads), fun hnone => ?_⟩
      obtain ⟨chunk, hq⟩ := hquiet hnone
      exact ⟨chunk, {
        buf := by rw [h₅.buf, hq.buf, ← h₁₃.buf]
        received := by rw [h₅.received, hq.received, ← h₁₃.received]
        sent := h₅.sent.trans (hq.sent.trans h₁₃.sent)
        readTimeout := h₅.readTimeout.trans h₁.readTimeout
        writeTimeout := h₅.writeTimeout.trans (h₁.trans h₂).writeTimeout
        nonblocking := h₅.nonblocking.trans hq.nonblocking
        poisoned := h₅.poisoned.trans (hq.poisoned.trans h₁₃.poisoned)
        ioDeadline := h₅.ioDeadline.trans h₁₃.ioDeadline
        timeout := h₅.timeout.trans (hq.timeout.trans h₁₃.timeout) }⟩
    · have hpolls : PollsOnly c t₄ := .trans (.of_eq h₁₃.reads) h₄
      refine wp_mono (restoreBudget_restores _ _ _ _ t₄) ?_ (fun _ t₅ h₅ => hpolls.trans (.of_eq h₅))
      rintro reply' t₅ ⟨hreply, -⟩
      cases hreply

theorem recvNonblocking_polls : Polls recvNonblocking := by
  have hoperation : Polls (ensureUsable >>= fun _ => finishIo recvNonblockingPacket) :=
    usable_polls (finishIo_polls recvNonblockingPacket_polls)
  intro c
  unfold recvNonblocking withBudget
  rw [wp_bind, wp_get]
  cases c.ioDeadline with
  | none => exact bounded_polls hoperation c.timeout c
  | some deadline => exact hoperation c

/-! ## The agreement -/

/-- A connected client with leftover bytes, where nothing but the peer's bytes can differ. -/
def listening (timeout : Duration) (buf : List UInt8) (arrivals : List Arrival) : GdbRspClient where
  stream := ⟨arrivals, [], [], fun _ => 0, 0, some timeout, some timeout, false, false, [], [], []⟩
  buf := buf
  poisoned := false
  ioDeadline := none
  timeout := timeout

section agreement
variable {timeout : Duration} (hpos : 0 < timeout) (hlimit : timeout < instantLimit) (buf : List UInt8)
  (reads : List (Option Chunk)) (whole : List Chunk)
include hpos

theorem listening_calm (arrivals : List Arrival) : Calm (listening timeout buf arrivals) := by
  have hne : some timeout ≠ some 0 := by
    rw [Ne, Option.some.injEq]
    exact Nat.ne_of_gt hpos
  refine ⟨rfl, rfl, fun _ => rfl, fun d h => ?_, hne, hne⟩
  cases h

include hlimit

theorem polls_eq_replies_iff (hwhole : chunkBytes whole = pollBytes reads) {n m : ℕ}
    (hn : reads.length + (buf ++ pollBytes reads).length < n) (hm : (buf ++ pollBytes reads).length < m) :
    polls n (listening timeout buf (reads.map pollArrival)) =
        replies m (listening timeout buf (whole.map Chunk.arrival)) ↔
      Timely (buf ++ pollBytes reads) reads := by
  have hready : Ready timeout none buf reads (listening timeout buf (reads.map pollArrival)) :=
    ⟨listening_calm hpos buf _, rfl, rfl, rfl, rfl, rfl⟩
  have hsupply : Supply (buf ++ pollBytes reads) (listening timeout buf (whole.map Chunk.arrival)) :=
    ⟨listening_calm hpos buf _, whole, rfl, by rw [← hwhole]; rfl⟩
  rw [polls_eq hpos hlimit n hready, replies_eq m hsupply]
  exact polled_eq_iff n m buf reads hn hm

end agreement

/-- One peer's bytes, polled for as they come and read as a whole until both fail (the peer closes after them):
the same packets come out, no poll makes a blocking read, and one without a packet only adds to the buffer. This
is so exactly if no poll ends inside a packet that is accepted with more than 8 MiB + 4 bytes at hand. -/
theorem polling_agrees_iff (timeout : Duration) (hpos : 0 < timeout) (hlimit : timeout < instantLimit)
    (buf : List UInt8) (reads : List (Option Chunk)) (whole : List Chunk)
    (hwhole : chunkBytes whole = pollBytes reads) :
    ((∀ n m, reads.length + (buf ++ pollBytes reads).length < n → (buf ++ pollBytes reads).length < m →
        polls n (listening timeout buf (reads.map pollArrival)) =
          replies m (listening timeout buf (whole.map Chunk.arrival))) ∧
      Polls recvNonblocking) ↔
      Timely (buf ++ pollBytes reads) reads := by
  constructor
  · rintro ⟨hagree, -⟩
    exact (polls_eq_replies_iff hpos hlimit buf reads whole hwhole (Nat.lt_succ_self _) (Nat.lt_succ_self _)).mp
      (hagree _ _ (Nat.lt_succ_self _) (Nat.lt_succ_self _))
  · intro htimely
    exact ⟨fun n m hn hm => (polls_eq_replies_iff hpos hlimit buf reads whole hwhole hn hm).mpr htimely,
      recvNonblocking_polls⟩

/-- A packet that comes in two parts with an empty poll between them. -/
def twoParts : List (Option Chunk) :=
  [some ⟨[36, 79], by decide, by decide⟩, none, some ⟨[75, 35, 57, 97], by decide, by decide⟩]

def onePart : List Chunk := [⟨[36, 79, 75, 35, 57, 97], by decide, by decide⟩]

theorem polling_agrees_iff_twoParts :
    ((∀ n m, twoParts.length + ([] ++ pollBytes twoParts).length < n → ([] ++ pollBytes twoParts).length < m →
        polls n (listening 5000000000 [] (twoParts.map pollArrival)) =
          replies m (listening 5000000000 [] (onePart.map Chunk.arrival))) ∧
      Polls recvNonblocking) ↔
      Timely ([] ++ pollBytes twoParts) twoParts :=
  polling_agrees_iff 5000000000 (by decide) (by decide) [] twoParts onePart rfl

/-! ## A good packet that a poll refuses -/

theorem checksum_replicate (n : ℕ) (b : UInt8) : checksum (List.replicate n b) = UInt8.ofNat n * b := by
  have hfold : ∀ acc : UInt8, (List.replicate n b).foldl (· + ·) acc = acc + UInt8.ofNat n * b := by
    induction n with
    | zero => simp
    | succ n ih =>
      intro acc
      have hone : UInt8.ofNat 1 = 1 := rfl
      rw [List.replicate_succ, List.foldl_cons, ih, UInt8.ofNat_add, UInt8.add_mul, hone, UInt8.one_mul,
        UInt8.add_assoc, UInt8.add_comm b]
  rw [checksum, hfold, UInt8.zero_add]

theorem pollBytes_map_some (chunks : List Chunk) : pollBytes (chunks.map some) = chunkBytes chunks := by
  unfold pollBytes
  rw [List.reduceOption, List.filterMap_map]
  simp

theorem chunkBytes_append (chunks later : List Chunk) :
    chunkBytes (chunks ++ later) = chunkBytes chunks ++ chunkBytes later := List.flatMap_append

def letters : Chunk where
  bytes := List.replicate chunkSize 97
  nonempty := by
    rw [Ne, List.replicate_eq_nil_iff]
    decide
  fits := by rw [List.length_replicate]

theorem chunkBytes_letters (n : ℕ) : chunkBytes (List.replicate n letters) = List.replicate (n * chunkSize) 97 := by
  rw [chunkBytes, List.flatMap_replicate, letters, List.flatten_replicate_replicate]

/-- Two acknowledgements, the start of a packet, blocks of its payload and half of its checksum. -/
def firstParts (blocks : ℕ) : List Chunk :=
  [⟨[43, 43, 36], by decide, by decide⟩] ++ List.replicate blocks letters ++ [⟨[35, 48], by decide, by decide⟩]

def lastPart : List Chunk := [⟨[48], by decide, by decide⟩]

theorem splitChecksum_bytes (blocks : ℕ) :
    chunkBytes (firstParts blocks ++ lastPart) =
      [43, 43] ++ packetStart :: List.replicate (blocks * chunkSize) 97 ++ packetEnd :: 48 :: 48 :: [] := by
  rw [firstParts, chunkBytes_append, chunkBytes_append, chunkBytes_append, chunkBytes_letters]
  generalize List.replicate (blocks * chunkSize) 97 = raw
  simp [chunkBytes, lastPart, packetStart, packetEnd]

theorem reading_zeroSum {raw : List UInt8} (hraw : packetEnd ∉ raw) (hlen : raw.length ≤ maxRspPayloadBytes)
    (hsum : checksum raw = 0) :
    reading ([43, 43] ++ packetStart :: raw ++ packetEnd :: 48 :: 48 :: []) = .packet raw [] := by
  obtain ⟨hcomplete, hpre⟩ := complete_framed (by decide : packetStart ∉ [43, 43]) hraw 48 48 []
  have hzero : parseChecksum 48 48 = some 0 := by decide
  rw [hcomplete.reading, hpre, hsum, hzero, if_neg]
  rintro (h | h | h)
  · exact absurd h (by decide)
  · omega
  · exact h rfl

theorem splitChecksum_late {blocks : ℕ} (hblocks : blocks * chunkSize = maxRspPayloadBytes) :
    ¬ Timely (pollBytes ((firstParts blocks ++ lastPart).map some)) ((firstParts blocks ++ lastPart).map some) := by
  have hraw : packetEnd ∉ List.replicate (blocks * chunkSize) 97 := by
    intro h
    exact absurd (List.eq_of_mem_replicate h) (by decide)
  have hsum : checksum (List.replicate (blocks * chunkSize) 97) = 0 := by
    rw [checksum_replicate, hblocks]
    decide
  have hlen : (List.replicate (blocks * chunkSize) (97 : UInt8)).length = maxRspPayloadBytes := by
    rw [List.length_replicate, hblocks]
  rw [pollBytes_map_some, splitChecksum_bytes]
  generalize List.replicate (blocks * chunkSize) (97 : UInt8) = raw at hraw hsum hlen
  intro h
  have hrest : ((firstParts blocks ++ lastPart).map some).drop (firstParts blocks).length = lastPart.map some := by
    rw [List.map_append]
    exact List.drop_left' (List.length_map ..)
  refine h _ raw [] .first (reading_zeroSum hraw hlen.le hsum) (firstParts blocks).length ?_
  rw [hrest, pollBytes_map_some]
  refine ⟨Nat.succ_pos _, ?_⟩
  have hlast : (chunkBytes lastPart).length = 1 := rfl
  simp only [hlast, List.length_append, List.length_cons, List.length_nil, hlen]
  omega

theorem polls_ne_replies {blocks : ℕ} (hblocks : blocks * chunkSize = maxRspPayloadBytes) {n m : ℕ}
    (hn : ((firstParts blocks ++ lastPart).map some).length +
      ([] ++ pollBytes ((firstParts blocks ++ lastPart).map some)).length < n)
    (hm : ([] ++ pollBytes ((firstParts blocks ++ lastPart).map some)).length < m) :
    polls n (listening 5000000000 [] (((firstParts blocks ++ lastPart).map some).map pollArrival)) ≠
      replies m (listening 5000000000 [] ((firstParts blocks ++ lastPart).map Chunk.arrival)) := by
  intro hagree
  have htimely := (polls_eq_replies_iff (by decide) (by decide) [] _ _ (pollBytes_map_some _).symm hn hm).mp hagree
  rw [List.nil_append] at htimely
  exact splitChecksum_late hblocks htimely

/-- The blocking reader returns a packet of 8 MiB that comes after two acknowledgements; polled for, it is refused
when it comes with half of its checksum. -/
theorem polling_disagrees :
    ¬ ((∀ n m,
        ((firstParts 2048 ++ lastPart).map some).length +
            ([] ++ pollBytes ((firstParts 2048 ++ lastPart).map some)).length < n →
          ([] ++ pollBytes ((firstParts 2048 ++ lastPart).map some)).length < m →
        polls n (listening 5000000000 [] (((firstParts 2048 ++ lastPart).map some).map pollArrival)) =
          replies m (listening 5000000000 [] ((firstParts 2048 ++ lastPart).map Chunk.arrival))) ∧
      Polls recvNonblocking) := by
  rintro ⟨hagree, -⟩
  have hblocks : 2048 * chunkSize = maxRspPayloadBytes := by decide
  generalize 2048 = blocks at hagree hblocks
  exact polls_ne_replies hblocks (Nat.lt_succ_self _) (Nat.lt_succ_self _)
    (hagree _ _ (Nat.lt_succ_self _) (Nat.lt_succ_self _))

end Emucap.GdbRsp
