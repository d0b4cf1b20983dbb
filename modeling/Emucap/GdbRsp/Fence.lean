import Emucap.GdbRsp.Client

/-!
# A client that failed in the middle of an exchange is fenced off

A call that failed after bytes went out or came in leaves bytes without a request they answer. Once the operation of
`bounded` has begun every error poisons the client, and a poisoned client refuses every operation.
-/

namespace Emucap.GdbRsp

open Emucap.Lib

/-! ## Calls that move no bytes -/

structure Held (c t : GdbRspClient) : Prop where
  received : t.stream.received = c.stream.received
  arrivals : t.stream.arrivals = c.stream.arrivals
  reads : t.stream.reads = c.stream.reads
  buf : t.buf = c.buf
  poisoned : t.poisoned = c.poisoned
  ioDeadline : t.ioDeadline = c.ioDeadline
  timeout : t.timeout = c.timeout

/-- A look at the clock or a socket option also leaves what was written. -/
structure Idle (c t : GdbRspClient) : Prop extends Held c t where
  sent : t.stream.sent = c.stream.sent
  accepts : t.stream.accepts = c.stream.accepts

theorem Held.refl (c : GdbRspClient) : Held c c := ⟨rfl, rfl, rfl, rfl, rfl, rfl, rfl⟩

theorem Held.trans {c t u : GdbRspClient} (h : Held c t) (h' : Held t u) : Held c u where
  received := h'.received.trans h.received
  arrivals := h'.arrivals.trans h.arrivals
  reads := h'.reads.trans h.reads
  buf := h'.buf.trans h.buf
  poisoned := h'.poisoned.trans h.poisoned
  ioDeadline := h'.ioDeadline.trans h.ioDeadline
  timeout := h'.timeout.trans h.timeout

theorem Idle.refl (c : GdbRspClient) : Idle c c := ⟨.refl c, rfl, rfl⟩

theorem Idle.trans {c t u : GdbRspClient} (h : Idle c t) (h' : Idle t u) : Idle c u :=
  ⟨h.toHeld.trans h'.toHeld, h'.sent.trans h.sent, h'.accepts.trans h.accepts⟩

/-- A look at the clock or at an option leaves the options too. -/
structure Untouched (c t : GdbRspClient) : Prop extends Idle c t where
  readTimeout : t.stream.readTimeout = c.stream.readTimeout
  writeTimeout : t.stream.writeTimeout = c.stream.writeTimeout
  nonblocking : t.stream.nonblocking = c.stream.nonblocking

theorem Untouched.refl (c : GdbRspClient) : Untouched c c := ⟨.refl c, rfl, rfl, rfl⟩

theorem Untouched.trans {c t u : GdbRspClient} (h : Untouched c t) (h' : Untouched t u) : Untouched c u :=
  ⟨h.toIdle.trans h'.toIdle, h'.readTimeout.trans h.readTimeout, h'.writeTimeout.trans h.writeTimeout,
    h'.nonblocking.trans h.nonblocking⟩

section idle
variable {ε α β : Type}

theorem Idle.bind {x : EStateM ε GdbRspClient α} {f : α → EStateM ε GdbRspClient β} (hx : Keeps Idle x)
    (hf : ∀ a, Keeps Idle (f a)) : Keeps Idle (x >>= f) :=
  hx.bind hf Idle.trans

theorem Untouched.bind {x : EStateM ε GdbRspClient α} {f : α → EStateM ε GdbRspClient β} (hx : Keeps Untouched x)
    (hf : ∀ a, Keeps Untouched (f a)) : Keeps Untouched (x >>= f) :=
  hx.bind hf Untouched.trans

theorem instantNow_untouched : Keeps Untouched (instantNow : EStateM ε GdbRspClient ℕ) :=
  fun _ => ⟨⟨⟨rfl, rfl, rfl, rfl, rfl, rfl, rfl⟩, rfl, rfl⟩, rfl, rfl, rfl⟩

theorem instantNow_idle : Keeps Idle (instantNow : EStateM ε GdbRspClient ℕ) :=
  (instantNow_untouched).mono (·.toIdle)

theorem explain_idle {x : IoM α} (h : Keeps Idle x) (text : String) : Keeps Idle (explain text x) := by
  intro c
  rw [wp_explain]
  exact h c

theorem wp_attempt_idle {x : IoM α} {f : Except IoError α → GdbM β} {Q : β → GdbRspClient → Prop}
    {E : GdbError → GdbRspClient → Prop} {c : GdbRspClient} (hx : Keeps Idle x)
    (h : ∀ r t, Idle c t → wp (f r) Q E t) : wp (liftIo (attempt x) >>= f) Q E c := by
  rw [wp_bind, wp_liftIo, wp_attempt]
  exact wp_mono (hx c) (fun a t ht => h (.ok a) t ht) (fun e t ht => h (.error e) t ht)

end idle

theorem optionCall_untouched : Keeps Untouched optionCall := by
  refine Untouched.bind (keeps_get Untouched.refl) fun c => ?_
  cases c.stream.options with
  | nil => exact keeps_pure Untouched.refl _
  | cons answer later =>
    have hnext : Keeps Untouched (onStream ({ · with options := later })) :=
      keeps_modify fun _ => ⟨⟨⟨rfl, rfl, rfl, rfl, rfl, rfl, rfl⟩, rfl, rfl⟩, rfl, rfl, rfl⟩
    cases answer with
    | none => exact hnext
    | some e => exact Untouched.bind hnext fun _ => keeps_throw Untouched.refl e

theorem optionCall_idle : Keeps Idle optionCall := optionCall_untouched.mono (·.toIdle)

theorem getReadTimeout_returns (c : GdbRspClient) :
    wp getReadTimeout (fun timeout t => timeout = c.stream.readTimeout ∧ Untouched c t) (fun _ t => Untouched c t) c := by
  unfold getReadTimeout
  rw [wp_bind]
  exact wp_mono (optionCall_untouched c) (fun _ t ht => ⟨ht.readTimeout, ht⟩) (fun _ _ ht => ht)

theorem getWriteTimeout_returns (c : GdbRspClient) :
    wp getWriteTimeout (fun timeout t => timeout = c.stream.writeTimeout ∧ Untouched c t) (fun _ t => Untouched c t) c := by
  unfold getWriteTimeout
  rw [wp_bind]
  exact wp_mono (optionCall_untouched c) (fun _ t ht => ⟨ht.writeTimeout, ht⟩) (fun _ _ ht => ht)

theorem setReadTimeout_idle (timeout : Option Duration) : Keeps Idle (setReadTimeout timeout) := by
  unfold setReadTimeout
  split_ifs
  · exact Idle.bind (keeps_throw Idle.refl _) fun _ => Idle.bind optionCall_idle fun _ =>
      keeps_modify fun _ => ⟨⟨rfl, rfl, rfl, rfl, rfl, rfl, rfl⟩, rfl, rfl⟩
  · exact Idle.bind optionCall_idle fun _ =>
      keeps_modify fun _ => ⟨⟨rfl, rfl, rfl, rfl, rfl, rfl, rfl⟩, rfl, rfl⟩

theorem setWriteTimeout_idle (timeout : Option Duration) : Keeps Idle (setWriteTimeout timeout) := by
  unfold setWriteTimeout
  split_ifs
  · exact Idle.bind (keeps_throw Idle.refl _) fun _ => Idle.bind optionCall_idle fun _ =>
      keeps_modify fun _ => ⟨⟨rfl, rfl, rfl, rfl, rfl, rfl, rfl⟩, rfl, rfl⟩
  · exact Idle.bind optionCall_idle fun _ =>
      keeps_modify fun _ => ⟨⟨rfl, rfl, rfl, rfl, rfl, rfl, rfl⟩, rfl, rfl⟩

theorem remainingBudget_untouched : Keeps Untouched remainingBudget := by
  refine Untouched.bind (keeps_get Untouched.refl) fun c => ?_
  cases c.ioDeadline with
  | none => exact keeps_pure Untouched.refl _
  | some deadline =>
    refine Untouched.bind instantNow_untouched fun now => ?_
    split_ifs
    · exact keeps_pure Untouched.refl _
    · exact keeps_throw Untouched.refl _

theorem remainingBudget_idle : Keeps Idle remainingBudget := remainingBudget_untouched.mono (·.toIdle)

/-! ## A budget -/

section bounded
variable {α : Type}

theorem boundedResult_spec (result : Except GdbError α) (elapsed : Except IoError (Option Duration))
    (restoreRead restoreWrite : Except IoError Unit) (c : GdbRspClient) :
    wp (boundedResult result elapsed restoreRead restoreWrite)
      (fun a t => t = c ∧ result = .ok a ∧
        (isError result || isError elapsed || isError restoreRead || isError restoreWrite) = false)
      (fun _ t => t = c ∧ (isError result || isError elapsed || isError restoreRead || isError restoreWrite) = true)
      c := by
  unfold boundedResult
  cases result with
  | error primary => exact ⟨rfl, rfl⟩
  | ok a =>
    cases restoreRead with
    | error e => exact ⟨rfl, by simp [isError]⟩
    | ok _ =>
      cases restoreWrite with
      | error e => exact ⟨rfl, by simp [isError]⟩
      | ok _ =>
        cases elapsed with
        | error e => exact ⟨rfl, by simp [isError]⟩
        | ok _ => exact ⟨rfl, rfl, rfl⟩

theorem restoreBudget_fenced (previous : Option ℕ) (readTimeout writeTimeout : Option Duration)
    (result : Except GdbError α) (c : GdbRspClient) :
    wp (restoreBudget previous readTimeout writeTimeout result)
      (fun _ t => t.ioDeadline = previous) (fun _ t => t.ioDeadline = previous ∧ t.poisoned = true) c := by
  have hend : ∀ elapsed restoreRead restoreWrite (t : GdbRspClient), t.ioDeadline = previous →
      wp (do
        if isError result || isError elapsed || isError restoreRead || isError restoreWrite then do
          poison
          shutdown
        boundedResult result elapsed restoreRead restoreWrite)
        (fun _ t => t.ioDeadline = previous) (fun _ t => t.ioDeadline = previous ∧ t.poisoned = true) t := by
    intro elapsed restoreRead restoreWrite t ht
    split_ifs with herror
    · simp only [poison, shutdown, wp_bind, wp_modify]
      refine wp_mono (boundedResult_spec result elapsed restoreRead restoreWrite _) ?_ ?_
      · rintro a u ⟨rfl, -⟩
        exact ht
      · rintro e u ⟨rfl, -⟩
        exact ⟨ht, rfl⟩
    · refine wp_mono (boundedResult_spec result elapsed restoreRead restoreWrite t) ?_ ?_
      · rintro a u ⟨rfl, -⟩
        exact ht
      · rintro e u ⟨-, h⟩
        exact absurd h herror
  unfold restoreBudget
  refine wp_attempt_idle remainingBudget_idle fun elapsed t₁ _ => ?_
  rw [setIoDeadline, wp_bind, wp_modify]
  refine wp_attempt_idle (explain_idle (setReadTimeout_idle readTimeout) _) fun restoreRead t₂ h₂ => ?_
  refine wp_attempt_idle (explain_idle (setWriteTimeout_idle writeTimeout) _) fun restoreWrite t₃ h₃ => ?_
  exact hend elapsed restoreRead restoreWrite t₃ (h₃.ioDeadline.trans h₂.ioDeadline)

theorem underDeadline_fenced (deadline : ℕ) (readTimeout writeTimeout : Option Duration) (operation : GdbM α)
    (c : GdbRspClient) :
    wp (underDeadline deadline readTimeout writeTimeout operation)
      (fun _ t => t.ioDeadline = c.ioDeadline) (fun _ t => t.ioDeadline = c.ioDeadline ∧ t.poisoned = true) c := by
  unfold underDeadline
  simp only [setIoDeadline, wp_bind, wp_get, wp_modify, wp_attempt]
  refine wp_mono (wp_top operation _) (fun a t _ => ?_) (fun e t _ => ?_)
  · exact restoreBudget_fenced c.ioDeadline readTimeout writeTimeout (.ok a) t
  · exact restoreBudget_fenced c.ioDeadline readTimeout writeTimeout (.error e) t

/-- A call with a budget leaves no deadline behind. If it fails it has moved no bytes, or the client is poisoned. -/
theorem bounded_fenced (budget : Duration) (operation : GdbM α) (c : GdbRspClient) :
    wp (bounded budget operation) (fun _ t => t.ioDeadline = c.ioDeadline)
      (fun _ t => t.ioDeadline = c.ioDeadline ∧ (t.poisoned = true ∨ Idle c t)) c := by
  have hidle : ∀ t, Idle c t → t.ioDeadline = c.ioDeadline ∧ (t.poisoned = true ∨ Idle c t) :=
    fun t ht => ⟨ht.ioDeadline, .inr ht⟩
  unfold bounded ensureUsable
  simp only [wp_bind, wp_get]
  split_ifs with hpoisoned
  · exact hidle c (Idle.refl c)
  · rw [wp_pure, wp_bind]
    refine wp_mono (instantNow_idle c) (fun now t ht => ?_) (fun e t ht => hidle t ht)
    cases deadlineAfter now budget with
    | none => exact hidle t ht
    | some deadline =>
      rw [wp_bind, wp_liftIo]
      refine wp_mono (getReadTimeout_returns t) (fun readTimeout t₁ h₁ => ?_)
        (fun e u hu => hidle u (ht.trans hu.toIdle))
      rw [wp_bind, wp_liftIo]
      refine wp_mono (getWriteTimeout_returns t₁) (fun writeTimeout t₂ h₂ => ?_)
        (fun e u hu => hidle u (ht.trans (h₁.2.trans hu).toIdle))
      have hdeadline : t₂.ioDeadline = c.ioDeadline := (ht.trans (h₁.2.trans h₂.2).toIdle).ioDeadline
      refine wp_mono (underDeadline_fenced deadline readTimeout writeTimeout operation t₂) (fun a u hu => ?_) ?_
      · exact hu.trans hdeadline
      · rintro e u ⟨hu, hpoisoned⟩
        exact ⟨hu.trans hdeadline, .inl hpoisoned⟩

theorem withBudget_fenced (operation : GdbM α) {c : GdbRspClient} (h : c.ioDeadline = none) :
    wp (withBudget operation) (fun _ t => t.ioDeadline = c.ioDeadline)
      (fun _ t => t.ioDeadline = c.ioDeadline ∧ (t.poisoned = true ∨ Idle c t)) c := by
  have hrun : withBudget operation c = bounded c.timeout operation c := by
    rw [withBudget, get_bind_run, h]
  unfold wp
  rw [hrun]
  exact bounded_fenced c.timeout operation c

/-! ## A poisoned client -/

theorem ensureUsable_refuses {f : Unit → GdbM α} {c : GdbRspClient} (h : c.poisoned = true) :
    (ensureUsable >>= f) c = .error .poisoned c := by
  refine bind_run_error ?_
  show (if c.poisoned = true then _ else _ : GdbM Unit) c = _
  rw [if_pos h]
  rfl

theorem bounded_refuses (budget : Duration) (operation : GdbM α) {c : GdbRspClient} (h : c.poisoned = true) :
    bounded budget operation c = .error .poisoned c :=
  ensureUsable_refuses h

theorem withBudget_refuses {f : Unit → GdbM α} {c : GdbRspClient} (h : c.poisoned = true) :
    withBudget (ensureUsable >>= f) c = .error .poisoned c := by
  rw [withBudget, get_bind_run]
  cases c.ioDeadline with
  | none => exact bounded_refuses c.timeout _ h
  | some deadline => exact ensureUsable_refuses h

end bounded

/-! ## The operations -/

theorem perform_fenced (op : Operation) {c : GdbRspClient} (h : c.ioDeadline = none) :
    wp (perform op) (fun _ t => t.ioDeadline = c.ioDeadline)
      (fun _ t => t.ioDeadline = c.ioDeadline ∧ (t.poisoned = true ∨ Idle c t)) c := by
  cases op with
  | send payload => exact wp_map.mpr (withBudget_fenced _ h)
  | sendWithTimeout payload budget => exact wp_map.mpr (bounded_fenced budget _ c)
  | sendNoReply payload => exact wp_map.mpr (withBudget_fenced _ h)
  | sendNoReplyWithTimeout payload budget => exact wp_map.mpr (bounded_fenced budget _ c)
  | recvReply => exact wp_map.mpr (withBudget_fenced _ h)
  | recvReplyWithTimeout budget => exact wp_map.mpr (bounded_fenced budget _ c)
  | interrupt => exact wp_map.mpr (withBudget_fenced _ h)
  | interruptWithTimeout budget => exact wp_map.mpr (bounded_fenced budget _ c)
  | requestInterruptWithTimeout budget => exact wp_map.mpr (bounded_fenced budget _ c)
  | recvNonblocking => exact withBudget_fenced _ h
  | recvNonblockingWithTimeout budget => exact bounded_fenced budget _ c

theorem perform_refuses (op : Operation) {c : GdbRspClient} (h : c.poisoned = true) :
    perform op c = .error .poisoned c := by
  cases op with
  | send payload => exact map_run_error (withBudget_refuses h)
  | sendWithTimeout payload budget => exact map_run_error (bounded_refuses budget _ h)
  | sendNoReply payload => exact map_run_error (withBudget_refuses h)
  | sendNoReplyWithTimeout payload budget => exact map_run_error (bounded_refuses budget _ h)
  | recvReply => exact map_run_error (withBudget_refuses h)
  | recvReplyWithTimeout budget => exact map_run_error (bounded_refuses budget _ h)
  | interrupt => exact map_run_error (withBudget_refuses h)
  | interruptWithTimeout budget => exact map_run_error (bounded_refuses budget _ h)
  | requestInterruptWithTimeout budget => exact map_run_error (bounded_refuses budget _ h)
  | recvNonblocking => exact withBudget_refuses h
  | recvNonblockingWithTimeout budget => exact bounded_refuses budget _ h

/-! ## Runs of calls -/

/-- The call wrote a byte, or took one from the socket or the buffer. -/
def Call.Moved (k : Call) : Prop :=
  k.later.stream.sent ≠ k.earlier.stream.sent ∨ k.later.stream.received ≠ k.earlier.stream.received ∨
    k.later.buf ≠ k.earlier.buf

theorem Idle.not_moved {k : Call} (h : Idle k.earlier k.later) : ¬ k.Moved := by
  rintro (hsent | hreceived | hbuf)
  · exact hsent h.sent
  · exact hreceived h.received
  · exact hbuf h.buf

structure Call.Fenced (k : Call) : Prop where
  poisons : isError k.result = true → k.Moved → k.later.poisoned = true
  refuses : k.earlier.poisoned = true → k.result = .error .poisoned ∧ k.later = k.earlier

theorem call_fenced (op : Operation) {c : GdbRspClient} (h : c.ioDeadline = none) :
    (call op c).Fenced ∧ (call op c).later.ioDeadline = none := by
  have hfenced := perform_fenced op h
  have hrefuses : c.poisoned = true → call op c = ⟨c, .error .poisoned, c⟩ := by
    intro hpoisoned
    unfold call
    rw [perform_refuses op hpoisoned]
  have hkept : c.poisoned = true → (call op c).result = .error .poisoned ∧ (call op c).later = (call op c).earlier := by
    intro hpoisoned
    rw [hrefuses hpoisoned]
    exact ⟨rfl, rfl⟩
  unfold wp at hfenced
  have hearlier : (call op c).earlier = c := by
    unfold call
    cases perform op c with
    | ok reply t => rfl
    | error e t => rfl
  refine ⟨⟨?_, hearlier.symm ▸ hkept⟩, ?_⟩
  · unfold call
    cases hrun : perform op c with
    | ok reply t =>
      intro herror
      cases herror
    | error e t =>
      rw [hrun] at hfenced
      obtain ⟨-, hpoisoned | hidle⟩ := hfenced
      · exact fun _ _ => hpoisoned
      · exact fun _ hmoved => absurd hmoved (Idle.not_moved hidle)
  · unfold call
    cases hrun : perform op c with
    | ok reply t =>
      rw [hrun] at hfenced
      exact hfenced.trans h
    | error e t =>
      rw [hrun] at hfenced
      exact hfenced.1.trans h

/-- A client as `connect` and `from_authenticated_stream` return it. -/
def connected (stream : Stream) (timeout : Duration) : GdbRspClient := ⟨stream, [], false, none, timeout⟩

theorem calls_fenced (ops : List Operation) {c : GdbRspClient} (h : c.ioDeadline = none) :
    ∀ k ∈ calls ops c, k.Fenced := by
  induction ops generalizing c with
  | nil =>
    intro k hk
    cases hk
  | cons op ops ih =>
    obtain ⟨hcall, hlater⟩ := call_fenced op h
    intro k hk
    rw [calls, List.mem_cons] at hk
    obtain rfl | hk := hk
    · exact hcall
    · exact ih hlater k hk

theorem calls_poisoned (ops : List Operation) {c : GdbRspClient} (h : c.poisoned = true) :
    ∀ k ∈ calls ops c, k = ⟨c, .error .poisoned, c⟩ := by
  induction ops with
  | nil =>
    intro k hk
    cases hk
  | cons op ops ih =>
    have hcall : call op c = ⟨c, .error .poisoned, c⟩ := by
      unfold call
      rw [perform_refuses op h]
    intro k hk
    rw [calls, List.mem_cons, hcall] at hk
    obtain rfl | hk := hk
    · rfl
    · exact ih k hk

theorem calls_drop (ops : List Operation) (c : GdbRspClient) (i : ℕ) {k : Call} (h : (calls ops c)[i]? = some k) :
    ∃ rest, (calls ops c).drop (i + 1) = calls rest k.later := by
  induction ops generalizing c i with
  | nil => cases h
  | cons op ops ih =>
    cases i with
    | zero =>
      cases h
      exact ⟨ops, rfl⟩
    | succ i => exact ih (call op c).later i h

/-- In every run, against every peer, a call that fails after it moved a byte poisons the client, and from there
on every call refuses and moves nothing: no later call returns a packet. -/
theorem failed_exchange_fenced (stream : Stream) (timeout : Duration) (ops : List Operation) (i : ℕ) (k : Call)
    (h : (calls ops (connected stream timeout))[i]? = some k) :
    (isError k.result = true → k.Moved → k.later.poisoned = true) ∧
      (k.later.poisoned = true → ∀ j, i < j → ∀ k', (calls ops (connected stream timeout))[j]? = some k' →
        k' = ⟨k.later, .error .poisoned, k.later⟩) := by
  refine ⟨(calls_fenced ops rfl k (List.mem_of_getElem? h)).poisons, fun hpoisoned j hj k' hk' => ?_⟩
  obtain ⟨rest, hrest⟩ := calls_drop ops _ i h
  refine calls_poisoned rest hpoisoned k' ?_
  rw [← hrest]
  refine List.mem_of_getElem? (i := j - (i + 1)) ?_
  rw [List.getElem?_drop, Nat.add_sub_cancel' hj]
  exact hk'

/-- The peer acknowledges a request, lets its answer wait past the timeout and sends it then. -/
def lateAnswer : Stream where
  arrivals := [.bytes [ackByte], .fails ⟨.wouldBlock, "Resource temporarily unavailable"⟩, .bytes (frame "OK")]
  accepts := []
  options := []
  clock := fun _ => 0
  ticks := 0
  readTimeout := some 5000000000
  writeTimeout := some 5000000000
  nonblocking := false
  shut := false
  sent := []
  received := []
  reads := []

/-- The answer that came too late is not returned by the next call. -/
theorem failed_exchange_fenced_lateAnswer :
    ∃ k, (calls [.send "g", .recvReply] (connected lateAnswer 5000000000))[0]? = some k ∧ isError k.result = true ∧
      k.Moved ∧ ∀ k', (calls [.send "g", .recvReply] (connected lateAnswer 5000000000))[1]? = some k' →
        k' = ⟨k.later, .error .poisoned, k.later⟩ := by
  have hmoved : (call (.send "g") (connected lateAnswer 5000000000)).Moved := .inl (by decide +kernel)
  have herror : isError (call (.send "g") (connected lateAnswer 5000000000)).result = true := by decide +kernel
  obtain ⟨hpoisons, hrefuses⟩ := failed_exchange_fenced lateAnswer 5000000000 [.send "g", .recvReply] 0 _ rfl
  exact ⟨_, rfl, herror, hmoved, hrefuses (hpoisons herror hmoved) 1 (by decide)⟩

end Emucap.GdbRsp
