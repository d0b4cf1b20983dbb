import Emucap.Live.Link

/-!
# The temporal wire exchange

`exchange_inner` (`live/temporal/wire.rs`): one temporal request, at most one abort line, and both answers drained
before the stream is used again. The responses read determine the loop's variables (`Tracks`).
-/

namespace Emucap.Live.Temporal

open Emucap.Lib

def unverified (reason : String) : LinkError :=
  .emulator "temporal_unverified" ("native terminal was not verified: " ++ reason)

/-- A drained terminal, including a producer rejection. -/
structure TerminalResponse where
  result : Except LinkError Json
  deriving DecidableEq

/-- What one poll of the stream yields; `pending` is a poll that ends without a whole line. -/
inductive Poll where
  | line (line : Line)
  | pending
  | closed
  | failed (reason : String)

/-- What one pass of the loop reads from the clock, the cancellation flag and the socket. -/
structure Turn where
  now : Nat
  clamp : Except String Unit
  cancelledAt : Option Nat
  stopNow : Nat
  stopClamp : Except String Unit
  abortWrite : Except String Unit
  poll : Poll

/-- What the dispatch of the request reads there. -/
structure Dispatch where
  cancelled : Bool
  start : Nat
  now : Nat
  clamp : Except String Unit
  write : Except String Unit

inductive Event where
  | request (line : Request)
  | abort (line : Request)
  | response (response : Response)
  deriving DecidableEq

/-- What the dispatch leaves fixed for the loop. -/
structure Call where
  request : Request
  abort : Request
  stopMs : Nat
  operationDeadline : Nat

structure Loop where
  stopDeadline : Option Nat
  acknowledgement : Option (Except LinkError Unit)
  terminal : Option Response
  mismatches : Nat

/-- The loop continues, or the exchange is over. -/
inductive Next where
  | again (s : Loop)
  | finished (result : Except LinkError TerminalResponse)

def Call.deadline (c : Call) (s : Loop) : Nat :=
  s.stopDeadline.elim c.operationDeadline fun at' => min at' c.operationDeadline

def finish (response : Response) : Option (Except LinkError Unit) → Except LinkError TerminalResponse
  | some (.error error) => .error error
  | _ =>
    if response.ok then .ok ⟨.ok (response.result.getD .null)⟩
    else match response.error with
      | none => .error (.protocol "terminal error omitted details")
      | some error => .ok ⟨.error (.emulator error.kind error.message)⟩

def acknowledge (response : Response) : Except LinkError Unit :=
  if response.ok = true ∧ (response.status = some "requested" ∨ response.status = some "not_active") then
    .ok ()
  else .error (unverified "invalid abort acknowledgement")

def receive (c : Call) (s : Loop) (response : Response) : Next :=
  if response.id = c.abort.id ∧ s.stopDeadline.isSome then
    if s.acknowledgement.isSome then .finished (.error (unverified "duplicate abort acknowledgement"))
    else .again { s with acknowledgement := some (acknowledge response) }
  else if response.id = c.request.id then
    if s.terminal.isSome then .finished (.error (unverified "response after original terminal"))
    else if response.isWorking then .again s
    else .again { s with terminal := some response }
  else if 256 < s.mismatches + 1 then .finished (.error (unverified "too many unrelated responses"))
  else .again { s with mismatches := s.mismatches + 1 }

/-- The end of a pass: one poll of the stream. The decoder's own text stands in the error of a line
it refuses. -/
def read (c : Call) (s : Loop) : Poll → Next × List Event
  | .line line =>
    match Response.parse line with
    | none => (.finished (.error (unverified "malformed response")), [])
    | some response => (receive c s response, [.response response])
  | .pending => (.again s, [])
  | .closed => (.finished (.error (unverified "connection closed")), [])
  | .failed reason => (.finished (.error (unverified reason)), [])

def stop (c : Call) (s : Loop) (t : Turn) : Except LinkError Loop × List Event :=
  match s.stopDeadline, t.cancelledAt with
  | none, some cancelledAt =>
    if cancelledAt + c.stopMs ≤ t.stopNow then
      (.error (unverified "shared cancellation deadline already expired"), [])
    else match t.stopClamp with
      | .error reason => (.error (unverified reason), [])
      | .ok () =>
        match t.abortWrite with
        | .error reason => (.error (unverified reason), [.abort c.abort])
        | .ok () => (.ok { s with stopDeadline := some (cancelledAt + c.stopMs) }, [.abort c.abort])
  | _, _ => (.ok s, [])

def Loop.drained (s : Loop) : Option Response :=
  if s.stopDeadline.isNone ∨ s.acknowledgement.isSome then s.terminal else none

def turn (c : Call) (s : Loop) (t : Turn) : Next × List Event :=
  if c.deadline s ≤ t.now then
    (.finished (.error (unverified "host deadline expired before terminal/abort drain")), [])
  else match t.clamp with
    | .error reason => (.finished (.error (unverified reason)), [])
    | .ok () =>
      match s.drained with
      | some response => (.finished (finish response s.acknowledgement), [])
      | none =>
        match stop c s t with
        | (.error error, events) => (.finished (.error error), events)
        | (.ok s, events) => ((read c s t.poll).1, events ++ (read c s t.poll).2)

def loop (c : Call) (s : Loop) :
    List Turn → Option (Except LinkError TerminalResponse) × List Event
  | [] => (none, [])
  | t :: turns =>
    match turn c s t with
    | (.finished result, events) => (some result, events)
    | (.again s, events) => ((loop c s turns).1, events ++ (loop c s turns).2)

/-- The key that binds a request to its cancellation. -/
def boundKey (request : Request) (abort : AbortRequest) : Except LinkError (Option Json) :=
  if request.method = "begin_temporal_operation" ∨ request.method = "finish_temporal_operation" then
    if request.params.get "_temporal_owner" ≠ some abort.params then
      .error (.protocol "parent ownership and cancellation identities disagree")
    else .ok (request.params.get "parent")
  else .ok ((request.params.get "_control").or (request.params.get "_temporal_owner"))

/-- The checks before anything is written: the stop budget and the abort they accept. -/
def accept (request : Request) (abortId : Nat) (control : ProgressCallControl) (cancelled : Bool) :
    Except LinkError (Nat × AbortRequest) := do
  let stopMs ← match control.temporalStopMs.filter fun ms => 0 < ms ∧ ms ≤ 300000 with
    | none => .error (.protocol "invalid temporal stop budget")
    | some stopMs => .ok stopMs
  let abort ← match control.abort.filter fun a => a.method = "cancel_operation" with
    | none => .error (.protocol "temporal call requires cancel_operation")
    | some abort => .ok abort
  let key ← match OperationKey.fromValue abort.params with
    | none => .error (.protocol "malformed operation key")
    | some key => .ok key
  match key.validate with
    | .error message => .error (.protocol message)
    | .ok () => .ok ()
  let bound ← boundKey request abort
  if bound ≠ some abort.params ∨ request.id = abortId then
    .error (.protocol "temporal request and cancellation identities disagree")
  if cancelled then .error .cancelled
  .ok (stopMs, abort)

def operationDeadline (control : ProgressCallControl) (maxHost start : Nat) : Nat :=
  let relative := start + min (control.maxHostMs.getD maxHost) maxHost
  control.temporalDeadline.elim relative fun deadline => min deadline relative

def exchangeInner (request : Request) (abortId : Nat) (control : ProgressCallControl)
    (maxHost : Nat) (d : Dispatch) (turns : List Turn) :
    Option (Except LinkError TerminalResponse) × List Event :=
  match accept request abortId control d.cancelled with
  | .error error => (some (.error error), [])
  | .ok (stopMs, abort) =>
    let deadline := operationDeadline control maxHost d.start
    if deadline ≤ d.now then
      (some (.error (unverified "temporal deadline expired before dispatch")), [])
    else match d.clamp with
      | .error reason => (some (.error (unverified reason)), [])
      | .ok () =>
        match d.write with
        | .error reason => (some (.error (unverified reason)), [.request request])
        | .ok () =>
          let c : Call := ⟨request, .new abortId abort.method abort.params, stopMs, deadline⟩
          ((loop c ⟨none, none, none, 0⟩ turns).1,
            .request request :: (loop c ⟨none, none, none, 0⟩ turns).2)

/-! ## What the responses read so far determine -/

def Call.isTerminal (c : Call) (r : Response) : Bool := r.id = c.request.id ∧ r.isWorking = false

/-- Responses passed over: the abort's own id counts as unrelated until the abort is written. -/
def Call.skipped (c : Call) (before after : List Response) : Nat :=
  before.countP (fun r => r.id ≠ c.request.id) +
    after.countP (fun r => r.id ≠ c.request.id ∧ r.id ≠ c.abort.id)

/-- The events of an exchange that read `before`, then wrote the abort line if `aborted`, and then
read `after`. -/
def Call.events (c : Call) (before : List Response) (aborted : Bool) (after : List Response) :
    List Event :=
  .request c.request :: before.map .response ++
    if aborted then .abort c.abort :: after.map .response else []

/-- The loop's variables, from the responses read before and after the abort line. -/
structure Tracks (c : Call) (s : Loop) (before after : List Response) : Prop where
  quiet : s.stopDeadline = none → after = []
  unterminated : s.stopDeadline.isSome → before.filter c.isTerminal = []
  terminal : (before ++ after).filter c.isTerminal = s.terminal.toList
  acknowledged : (after.filter fun r => r.id = c.abort.id).map acknowledge = s.acknowledgement.toList
  mismatches : s.mismatches = c.skipped before after
  bound : s.mismatches ≤ 256

/-- What a finished or waiting exchange has read and written. -/
structure Exchanged (c : Call) (result : Option (Except LinkError TerminalResponse))
    (before : List Response) (aborted : Bool) (after : List Response) : Prop where
  quiet : aborted = false → after = []
  unterminated : aborted = true → before.filter c.isTerminal = []
  terminal : ∀ t, result = some (.ok t) →
    ∃ r, (before ++ after).filter c.isTerminal = [r] ∧ finish r none = .ok t
  acknowledged : ∀ t, result = some (.ok t) → aborted = true →
    ∃ a, (after.filter fun r => r.id = c.abort.id) = [a] ∧ acknowledge a = .ok ()
  skipped : (∀ e, result ≠ some (.error e)) → c.skipped before after ≤ 256

section

variable {c : Call} {s : Loop} {before after : List Response}

theorem Tracks.init (c : Call) : Tracks c ⟨none, none, none, 0⟩ [] [] where
  quiet := fun _ => rfl
  unterminated := fun h => by cases h
  terminal := rfl
  acknowledged := rfl
  mismatches := rfl
  bound := by decide

theorem Exchanged.of_error {aborted : Bool} {e : LinkError} (hquiet : aborted = false → after = [])
    (hunterminated : aborted = true → before.filter c.isTerminal = []) :
    Exchanged c (some (.error e)) before aborted after where
  quiet := hquiet
  unterminated := hunterminated
  terminal := fun t ht => by cases ht
  acknowledged := fun t ht => by cases ht
  skipped := fun hne => absurd rfl (hne e)

theorem Tracks.exchanged_error (h : Tracks c s before after) (e : LinkError) :
    Exchanged c (some (.error e)) before s.stopDeadline.isSome after :=
  .of_error (fun hs => h.quiet (by simpa using hs)) h.unterminated

theorem Tracks.exchanged_waiting (h : Tracks c s before after) :
    Exchanged c none before s.stopDeadline.isSome after where
  quiet := fun hs => h.quiet (by simpa using hs)
  unterminated := h.unterminated
  terminal := fun t ht => by cases ht
  acknowledged := fun t ht => by cases ht
  skipped := fun _ => h.mismatches ▸ h.bound

theorem finish_acknowledged {r : Response} {ack : Option (Except LinkError Unit)}
    {t : TerminalResponse} (h : finish r ack = .ok t) :
    finish r none = .ok t ∧ ∀ x, ack = some x → x = .ok () := by
  rcases ack with _ | ⟨e | u⟩
  · exact ⟨h, fun x hx => by cases hx⟩
  · cases h
  · refine ⟨h, fun x hx => ?_⟩
    cases hx
    rfl

/-- A terminal is returned only with the abort acknowledged, if there was one. -/
theorem Tracks.exchanged_drained (h : Tracks c s before after) {r : Response}
    (hr : s.drained = some r) :
    Exchanged c (some (finish r s.acknowledgement)) before s.stopDeadline.isSome after where
  quiet := fun hs => h.quiet (by simpa using hs)
  unterminated := h.unterminated
  terminal := by
    intro t ht
    have hterm : s.terminal = some r := by
      unfold Loop.drained at hr
      split_ifs at hr
      exact hr
    refine ⟨r, ?_, (finish_acknowledged (Option.some.inj ht)).1⟩
    rw [h.terminal, hterm]
    rfl
  acknowledged := by
    intro t ht hstop
    have hack : s.acknowledgement.isSome := by
      unfold Loop.drained at hr
      split_ifs at hr with hc
      rcases hc with hnone | hsome
      · rw [Option.isNone_iff_eq_none.mp hnone] at hstop
        cases hstop
      · exact hsome
    obtain ⟨x, hx⟩ := Option.isSome_iff_exists.mp hack
    have hmap := h.acknowledged
    rw [hx, (finish_acknowledged (Option.some.inj ht)).2 x hx] at hmap
    obtain ⟨a, ha, hok⟩ := List.map_eq_singleton_iff.mp hmap
    exact ⟨a, ha, hok⟩
  skipped := fun _ => h.mismatches ▸ h.bound

/-! ## One response -/

/-- Before the abort line, every response is the request's own or passed over. -/
theorem receive_before (h : Tracks c s before after) (hs : s.stopDeadline = none) (r : Response) :
    (∃ s', receive c s r = .again s' ∧ s'.stopDeadline = none ∧ Tracks c s' (before ++ [r]) []) ∨
      ∃ e, receive c s r = .finished (.error e) := by
  obtain rfl := h.quiet hs
  have hterm := h.terminal
  have hmis := h.mismatches
  have hbound := h.bound
  simp only [List.append_nil] at hterm
  have hearly : ¬ (r.id = c.abort.id ∧ s.stopDeadline.isSome = true) := by simp [hs]
  rw [receive, if_neg hearly]
  by_cases hid : r.id = c.request.id
  · rw [if_pos hid]
    cases hst : s.terminal with
    | some r' => exact Or.inr ⟨_, rfl⟩
    | none =>
      left
      rw [hst] at hterm
      cases hw : r.isWorking with
      | true =>
        refine ⟨s, rfl, hs, ?_, ?_, ?_, ?_, ?_, hbound⟩
        · exact fun _ => rfl
        · intro hsome; rw [hs] at hsome; cases hsome
        · simp [List.filter_append, hterm, Call.isTerminal, hw, hst]
        · exact h.acknowledged
        · simp only [Call.skipped] at hmis ⊢
          simpa [List.countP_append, hid] using hmis
      | false =>
        refine ⟨{ s with terminal := some r }, rfl, hs, ?_, ?_, ?_, ?_, ?_, hbound⟩
        · exact fun _ => rfl
        · intro hsome; rw [hs] at hsome; cases hsome
        · simp [List.filter_append, hterm, Call.isTerminal, hw, hid]
        · exact h.acknowledged
        · simp only [Call.skipped] at hmis ⊢
          simpa [List.countP_append, hid] using hmis
  · rw [if_neg hid]
    by_cases hfull : 256 < s.mismatches + 1
    · rw [if_pos hfull]
      exact Or.inr ⟨_, rfl⟩
    · rw [if_neg hfull]
      left
      refine ⟨{ s with mismatches := s.mismatches + 1 }, rfl, hs, ?_, ?_, ?_, ?_, ?_, ?_⟩
      · exact fun _ => rfl
      · intro hsome; rw [hs] at hsome; cases hsome
      · simp [List.filter_append, hterm, Call.isTerminal, hid]
      · exact h.acknowledged
      · simp only [Call.skipped] at hmis ⊢
        simp [List.countP_append, hid] at hmis ⊢
        omega
      · show s.mismatches + 1 ≤ 256
        omega

theorem receive_after (hne : c.request.id ≠ c.abort.id) (h : Tracks c s before after)
    (hs : s.stopDeadline.isSome) (r : Response) :
    (∃ s', receive c s r = .again s' ∧ s'.stopDeadline = s.stopDeadline ∧
        Tracks c s' before (after ++ [r])) ∨
      ∃ e, receive c s r = .finished (.error e) := by
  have hterm := h.terminal
  have hack := h.acknowledged
  have hmis := h.mismatches
  have hbound := h.bound
  have hquiet : s.stopDeadline = none → after ++ [r] = [] := by
    intro hnone; rw [hnone] at hs; cases hs
  rw [receive]
  by_cases habort : r.id = c.abort.id
  · rw [if_pos ⟨habort, hs⟩]
    have hid : r.id ≠ c.request.id := fun h => hne (h.symm.trans habort)
    cases hsa : s.acknowledgement with
    | some a => exact Or.inr ⟨_, rfl⟩
    | none =>
      left
      refine ⟨{ s with acknowledgement := some (acknowledge r) }, rfl, rfl, hquiet,
        h.unterminated, ?_, ?_, ?_, hbound⟩
      · rw [← List.append_assoc, List.filter_append, hterm]
        simp [Call.isTerminal, hid]
      · rw [List.filter_append, List.map_append, hack, hsa]
        simp [habort]
      · rw [hmis, Call.skipped, Call.skipped, List.countP_append]
        simp [habort]
  · rw [if_neg (fun hc => habort hc.1)]
    by_cases hid : r.id = c.request.id
    · rw [if_pos hid]
      have hack' : (List.filter (fun r => decide (r.id = c.abort.id)) (after ++ [r])).map acknowledge
          = s.acknowledgement.toList := by
        rw [List.filter_append, List.map_append, hack]
        simp [habort]
      have hmis' : s.mismatches = c.skipped before (after ++ [r]) := by
        rw [hmis, Call.skipped, Call.skipped, List.countP_append]
        simp [hid]
      cases hst : s.terminal with
      | some r' => exact Or.inr ⟨_, rfl⟩
      | none =>
        left
        rw [hst] at hterm
        cases hw : r.isWorking with
        | true =>
          refine ⟨s, rfl, rfl, hquiet, h.unterminated, ?_, hack', hmis', hbound⟩
          rw [← List.append_assoc, List.filter_append, hterm, hst]
          simp [Call.isTerminal, hw]
        | false =>
          refine ⟨{ s with terminal := some r }, rfl, rfl, hquiet, h.unterminated, ?_, hack', hmis',
            hbound⟩
          rw [← List.append_assoc, List.filter_append, hterm]
          simp [Call.isTerminal, hw, hid]
    · rw [if_neg hid]
      by_cases hfull : 256 < s.mismatches + 1
      · rw [if_pos hfull]
        exact Or.inr ⟨_, rfl⟩
      · rw [if_neg hfull]
        left
        refine ⟨{ s with mismatches := s.mismatches + 1 }, rfl, rfl, hquiet, h.unterminated, ?_, ?_,
          ?_, ?_⟩
        · rw [← List.append_assoc, List.filter_append, hterm]
          simp [Call.isTerminal, hid]
        · rw [List.filter_append, List.map_append, hack]
          simp [habort]
        · show s.mismatches + 1 = _
          rw [hmis, Call.skipped, Call.skipped, List.countP_append]
          simp [hid, habort]
          omega
        · show s.mismatches + 1 ≤ 256
          omega

/-! ## One pass and whole runs -/

theorem events_before (c : Call) (before : List Response) (r : Response) :
    c.events before false [] ++ [.response r] = c.events (before ++ [r]) false [] := by
  simp [Call.events]

theorem events_abort (c : Call) (before : List Response) :
    c.events before false [] ++ [.abort c.abort] = c.events before true [] := by
  simp [Call.events]

theorem events_after (c : Call) (before after : List Response) (r : Response) :
    c.events before true after ++ [.response r] = c.events before true (after ++ [r]) := by
  simp [Call.events]

/-- A pass ends the exchange in shape, or keeps the invariant. -/
def Passes (c : Call) (s : Loop) (before after : List Response) (next : Next)
    (events : List Event) : Prop :=
  ∃ before' aborted after', c.events before s.stopDeadline.isSome after ++ events =
      c.events before' aborted after' ∧
    match next with
    | .finished result => Exchanged c (some result) before' aborted after'
    | .again s' => s'.stopDeadline.isSome = aborted ∧ Tracks c s' before' after'

theorem Tracks.passes_error (h : Tracks c s before after) (e : LinkError) :
    Passes c s before after (.finished (.error e)) [] :=
  ⟨before, _, after, List.append_nil _, h.exchanged_error e⟩

theorem receive_passes (hne : c.request.id ≠ c.abort.id) (h : Tracks c s before after)
    (r : Response) : Passes c s before after (receive c s r) [.response r] := by
  cases hs : s.stopDeadline with
  | none =>
    obtain rfl := h.quiet hs
    refine ⟨before ++ [r], false, [], by rw [hs]; exact events_before c before r, ?_⟩
    rcases receive_before h hs r with ⟨s', hr, hs', h'⟩ | ⟨e, hr⟩
    · rw [hr]
      exact ⟨by rw [hs']; rfl, h'⟩
    · rw [hr]
      exact .of_error (fun _ => rfl) (fun ha => by cases ha)
  | some at' =>
    have hsome : s.stopDeadline.isSome := by rw [hs]; rfl
    refine ⟨before, true, after ++ [r], by rw [hs]; exact events_after c before after r, ?_⟩
    rcases receive_after hne h hsome r with ⟨s', hr, hs', h'⟩ | ⟨e, hr⟩
    · rw [hr]
      exact ⟨by rw [hs', hs]; rfl, h'⟩
    · rw [hr]
      exact .of_error (fun ha => by cases ha) (fun _ => h.unterminated hsome)

theorem read_passes (hne : c.request.id ≠ c.abort.id) (h : Tracks c s before after) (poll : Poll) :
    Passes c s before after (read c s poll).1 (read c s poll).2 := by
  cases poll with
  | line line =>
    cases hr : Response.parse line with
    | none =>
      simp only [read, hr]
      exact h.passes_error _
    | some r =>
      simp only [read, hr]
      exact receive_passes hne h r
  | pending => exact ⟨before, _, after, List.append_nil _, rfl, h⟩
  | closed => exact h.passes_error _
  | failed reason => exact h.passes_error _

theorem stop_tracks (h : Tracks c s before after) (hd : s.drained = none) (t : Turn) :
    (∃ e, stop c s t = (.error e, [])) ∨ stop c s t = (.ok s, []) ∨
      (s.stopDeadline = none ∧ before.filter c.isTerminal = [] ∧ after = [] ∧
        ((∃ e, stop c s t = (.error e, [.abort c.abort])) ∨
          ∃ s', stop c s t = (.ok s', [.abort c.abort]) ∧ s'.stopDeadline.isSome ∧
            Tracks c s' before [])) := by
  cases hs : s.stopDeadline with
  | some at' => right; left; simp [stop, hs]
  | none =>
    cases hc : t.cancelledAt with
    | none => right; left; simp [stop, hs, hc]
    | some cancelledAt =>
      obtain rfl := h.quiet hs
      have hnone : s.terminal = none := by simpa [Loop.drained, hs] using hd
      have hfilter : before.filter c.isTerminal = [] := by
        have hterm := h.terminal
        rw [List.append_nil, hnone] at hterm
        exact hterm
      simp only [stop, hs, hc]
      by_cases hlate : cancelledAt + c.stopMs ≤ t.stopNow
      · rw [if_pos hlate]
        exact Or.inl ⟨_, rfl⟩
      · rw [if_neg hlate]
        cases t.stopClamp with
        | error reason => exact Or.inl ⟨_, rfl⟩
        | ok =>
          refine Or.inr (Or.inr ⟨trivial, hfilter, trivial, ?_⟩)
          cases t.abortWrite with
          | error reason => exact Or.inl ⟨_, rfl⟩
          | ok =>
            refine Or.inr ⟨_, rfl, rfl, ?_⟩
            exact ⟨fun _ => rfl, fun _ => hfilter, h.terminal, h.acknowledged, h.mismatches, h.bound⟩

theorem turn_tracks (hne : c.request.id ≠ c.abort.id) (h : Tracks c s before after) (t : Turn) :
    Passes c s before after (turn c s t).1 (turn c s t).2 := by
  unfold turn
  by_cases hlate : c.deadline s ≤ t.now
  · rw [if_pos hlate]
    exact h.passes_error _
  rw [if_neg hlate]
  cases t.clamp with
  | error reason => exact h.passes_error _
  | ok =>
    cases hd : s.drained with
    | some r => exact ⟨before, _, after, List.append_nil _, h.exchanged_drained hd⟩
    | none =>
      rcases stop_tracks h hd t with ⟨e, he⟩ | hok | ⟨hs, hfilter, rfl, habort⟩
      · rw [he]
        exact h.passes_error e
      · rw [hok]
        exact read_passes hne h t.poll
      · rcases habort with ⟨e, he⟩ | ⟨s', hok, hs', h'⟩
        · rw [he]
          refine ⟨before, true, [], ?_, .of_error (fun ha => by cases ha) (fun _ => hfilter)⟩
          rw [hs]
          exact events_abort c before
        · rw [hok]
          obtain ⟨before', aborted, after', hev, hnext⟩ := read_passes hne h' t.poll
          refine ⟨before', aborted, after', ?_, hnext⟩
          rw [hs, ← List.append_assoc, Option.isSome_none, events_abort, ← hev, hs']

theorem loop_tracks (hne : c.request.id ≠ c.abort.id) (turns : List Turn) : ∀ {s before after},
    Tracks c s before after →
    ∃ before' aborted after', c.events before s.stopDeadline.isSome after ++ (loop c s turns).2 =
        c.events before' aborted after' ∧
      Exchanged c (loop c s turns).1 before' aborted after' := by
  induction turns with
  | nil => intro s before after h; exact ⟨before, _, after, List.append_nil _, h.exchanged_waiting⟩
  | cons t turns ih =>
    intro s before after h
    obtain ⟨before', aborted, after', hev, hnext⟩ := turn_tracks hne h t
    rw [loop]
    rcases hturn : turn c s t with ⟨s' | result, events⟩
    · rw [hturn] at hev hnext
      obtain ⟨before'', aborted', after'', hev', hdone⟩ := ih hnext.2
      refine ⟨before'', aborted', after'', ?_, hdone⟩
      rw [← List.append_assoc, hev, ← hev', hnext.1]
    · rw [hturn] at hev hnext
      exact ⟨before', aborted, after', hev, hnext⟩

end

/-! ## The stream after an exchange -/

def AnsweredOnce (id : Nat) (stream : List Response) : Prop :=
  ∃ notices terminal, (stream.filter fun r => r.id = id) = notices ++ [terminal] ∧
    (∀ r ∈ notices, r.isWorking = true) ∧ terminal.isWorking = false

theorem AnsweredOnce.rest {id : Nat} {read rest : List Response}
    (h : AnsweredOnce id (read ++ rest)) {r : Response} (hr : r ∈ read) (hid : r.id = id)
    (hterm : r.isWorking = false) : ∀ x ∈ rest, x.id ≠ id := by
  obtain ⟨notices, terminal, heq, hnotices, -⟩ := h
  rw [List.filter_append] at heq
  rcases List.eq_nil_or_concat (rest.filter fun r => r.id = id) with hnil | ⟨init, last, hlast⟩
  · intro x hx hxid
    have hmem : x ∈ rest.filter fun r => r.id = id := by simp [hx, hxid]
    rw [hnil] at hmem
    cases hmem
  · rw [hlast, List.concat_eq_append, ← List.append_assoc] at heq
    have hheader := (List.append_inj' heq rfl).1
    have hmem : r ∈ notices := by
      rw [← hheader]
      exact List.mem_append_left _ (by simp [hr, hid])
    rw [hnotices r hmem] at hterm
    cases hterm

theorem acknowledge_ok {r : Response} (h : acknowledge r = .ok ()) :
    r.ok = true ∧ (r.status = some "requested" ∨ r.status = some "not_active") := by
  unfold acknowledge at h
  split_ifs at h with hc
  exact hc

theorem acknowledge_not_working {r : Response} (h : acknowledge r = .ok ()) :
    r.isWorking = false := by
  obtain ⟨-, hs | hs⟩ := acknowledge_ok h
  · simp [Response.isWorking, hs]
  · simp [Response.isWorking, hs]

theorem Exchanged.drained {c : Call} {t : TerminalResponse} {before after : List Response}
    {aborted : Bool} (h : Exchanged c (some (.ok t)) before aborted after)
    {earlier rest : List Response}
    (hrequest : AnsweredOnce c.request.id (earlier ++ (before ++ after) ++ rest))
    (habort : if aborted then AnsweredOnce c.abort.id (earlier ++ (before ++ after) ++ rest)
      else ∀ r ∈ earlier ++ (before ++ after) ++ rest, r.id ≠ c.abort.id) :
    ∀ r ∈ rest, r.id ≠ c.request.id ∧ r.id ≠ c.abort.id := by
  obtain ⟨r, hr, -⟩ := h.terminal t rfl
  have hmem : r ∈ (before ++ after).filter c.isTerminal := by rw [hr]; exact List.mem_singleton_self r
  obtain ⟨hread, hterm⟩ := List.mem_filter.mp hmem
  simp only [Call.isTerminal, decide_eq_true_eq] at hterm
  have hown := hrequest.rest (List.mem_append_right earlier hread) hterm.1 hterm.2
  cases aborted with
  | false =>
    intro x hx
    exact ⟨hown x hx, habort x (List.mem_append_right _ hx)⟩
  | true =>
    obtain ⟨a, ha, hok⟩ := h.acknowledged t rfl rfl
    have hmem' : a ∈ after.filter fun r => r.id = c.abort.id := by
      rw [ha]; exact List.mem_singleton_self a
    obtain ⟨hread', hid⟩ := List.mem_filter.mp hmem'
    have hack := AnsweredOnce.rest habort
      (List.mem_append_right earlier (List.mem_append_right before hread')) (by simpa using hid)
      (acknowledge_not_working hok)
    intro x hx
    exact ⟨hown x hx, hack x hx⟩

theorem accept_ok {request : Request} {abortId : Nat} {control : ProgressCallControl}
    {cancelled : Bool} {stopMs : Nat} {abort : AbortRequest}
    (h : accept request abortId control cancelled = .ok (stopMs, abort)) :
    request.id ≠ abortId ∧ control.abort = some abort := by
  simp only [accept, bind, Except.bind] at h
  split at h
  · cases h
  split at h
  · cases h
  rename_i _ _ abort' habort
  split at h
  · cases h
  split at h
  · cases h
  split at h
  · cases h
  split_ifs at h with hids hcancelled
  refine ⟨fun hid => hids (Or.inr hid), ?_⟩
  cases h
  exact (Option.filter_eq_some_iff.mp habort).1

/-- An exchange is refused before anything is written, or its lines and responses are in order: one
request, at most one abort line and only while no terminal has been read, and an `ok` result only
with both answers drained. -/
theorem exchange_drains (request : Request) (abortId : Nat) (control : ProgressCallControl)
    (maxHost : Nat) (d : Dispatch) (turns : List Turn) :
    ((∃ e, (exchangeInner request abortId control maxHost d turns).1 = some (.error e)) ∧
        (exchangeInner request abortId control maxHost d turns).2 = []) ∨
      ∃ c : Call, c.request = request ∧ c.abort.id = abortId ∧ request.id ≠ abortId ∧
        ∃ before aborted after,
          (exchangeInner request abortId control maxHost d turns).2 =
              c.events before aborted after ∧
            Exchanged c (exchangeInner request abortId control maxHost d turns).1 before aborted
              after ∧
            ∀ t, (exchangeInner request abortId control maxHost d turns).1 = some (.ok t) →
              ∀ earlier rest, AnsweredOnce request.id (earlier ++ (before ++ after) ++ rest) →
                (if aborted then AnsweredOnce abortId (earlier ++ (before ++ after) ++ rest)
                  else ∀ r ∈ earlier ++ (before ++ after) ++ rest, r.id ≠ abortId) →
                ∀ r ∈ rest, r.id ≠ request.id ∧ r.id ≠ abortId := by
  unfold exchangeInner
  cases haccept : accept request abortId control d.cancelled with
  | error e => exact Or.inl ⟨⟨e, rfl⟩, rfl⟩
  | ok accepted =>
    obtain ⟨stopMs, abort⟩ := accepted
    have hne := (accept_ok haccept).1
    dsimp only
    by_cases hlate : operationDeadline control maxHost d.start ≤ d.now
    · rw [if_pos hlate]
      exact Or.inl ⟨⟨_, rfl⟩, rfl⟩
    rw [if_neg hlate]
    let c : Call := ⟨request, .new abortId abort.method abort.params, stopMs,
      operationDeadline control maxHost d.start⟩
    cases d.clamp with
    | error reason => exact Or.inl ⟨⟨_, rfl⟩, rfl⟩
    | ok =>
      refine Or.inr ⟨c, rfl, rfl, hne, ?_⟩
      cases d.write with
      | error reason =>
        refine ⟨[], false, [], rfl, .of_error (fun _ => rfl) (fun h => by cases h), ?_⟩
        intro t ht
        cases ht
      | ok =>
        obtain ⟨before, aborted, after, hev, hdone⟩ :=
          loop_tracks (show c.request.id ≠ c.abort.id from hne) turns (Tracks.init c)
        refine ⟨before, aborted, after, hev, hdone, ?_⟩
        intro t ht earlier rest hrequest habort
        dsimp only at ht
        rw [ht] at hdone
        exact hdone.drained hrequest habort

/-! ## Errors of the exchange itself -/

def Outer (e : LinkError) : Prop := (∃ message, e = .protocol message) ∨ ∃ reason, e = unverified reason

theorem outer_unverified (reason : String) : Outer (unverified reason) := .inr ⟨reason, rfl⟩

theorem acknowledge_outer {r : Response} {e : LinkError} (h : acknowledge r = .error e) : Outer e := by
  unfold acknowledge at h
  split_ifs at h
  cases h
  exact outer_unverified _

/-- The acknowledgement that a loop has noted is an error of the exchange itself, if it is one. -/
def Loop.Sound (s : Loop) : Prop := ∀ e, s.acknowledgement = some (.error e) → Outer e

theorem finish_outer {r : Response} {ack : Option (Except LinkError Unit)} {e : LinkError}
    (hack : ∀ e, ack = some (.error e) → Outer e) (h : finish r ack = .error e) : Outer e := by
  unfold finish at h
  split at h
  · cases h
    exact hack e rfl
  · split_ifs at h
    split at h
    · cases h
      exact .inl ⟨_, rfl⟩
    · cases h

theorem receive_sound {c : Call} {s : Loop} (h : s.Sound) (r : Response) :
    (∀ s', receive c s r = .again s' → s'.Sound) ∧
      ∀ e, receive c s r = .finished (.error e) → Outer e := by
  unfold receive
  refine ⟨fun s' hs' => ?_, fun e he => ?_⟩
  · split_ifs at hs'
    · cases hs'
      intro e he
      exact acknowledge_outer (Option.some.inj he)
    all_goals
      cases hs'
      exact h
  · split_ifs at he
    all_goals
      cases he
      exact outer_unverified _

theorem stop_cases (c : Call) (s : Loop) (t : Turn) :
    (∃ reason events, stop c s t = (.error (unverified reason), events)) ∨
      ∃ s' events, stop c s t = (.ok s', events) ∧ s'.acknowledgement = s.acknowledgement := by
  unfold stop
  split
  · split_ifs
    · exact .inl ⟨_, _, rfl⟩
    · split
      · exact .inl ⟨_, _, rfl⟩
      · split
        · exact .inl ⟨_, _, rfl⟩
        · exact .inr ⟨_, _, rfl, rfl⟩
  · exact .inr ⟨_, _, rfl, rfl⟩

theorem turn_sound {c : Call} {s : Loop} (h : s.Sound) (t : Turn) :
    (∀ s', (turn c s t).1 = .again s' → s'.Sound) ∧
      ∀ e, (turn c s t).1 = .finished (.error e) → Outer e := by
  have hfinished {reason : String} {e : LinkError}
      (he : Next.finished (.error (unverified reason)) = .finished (.error e)) : Outer e := by
    cases he
    exact outer_unverified reason
  have hagain {result : Except LinkError TerminalResponse} {s' : Loop} (hs' : Next.finished result = .again s') :
      s'.Sound := by
    cases hs'
  unfold turn
  split_ifs
  · exact ⟨fun _ => False.elim, fun _ => hfinished⟩
  split
  · exact ⟨fun _ => hagain, fun _ => hfinished⟩
  split
  · exact ⟨fun _ => hagain, fun e he => finish_outer h (Next.finished.inj he)⟩
  obtain ⟨reason, events, hstop⟩ | ⟨s', events, hstop, hack⟩ := stop_cases c s t
  · rw [hstop]
    exact ⟨fun _ => hagain, fun _ => hfinished⟩
  · rw [hstop]
    have hs' : s'.Sound := fun e he => h e (hack.symm.trans he)
    simp only [read]
    split
    · split
      · exact ⟨fun _ => hagain, fun _ => hfinished⟩
      · exact receive_sound hs' _
    · refine ⟨fun s'' hs'' => ?_, fun e he => ?_⟩
      · cases hs''
        exact hs'
      · cases he
    · exact ⟨fun _ => hagain, fun _ => hfinished⟩
    · exact ⟨fun _ => hagain, fun _ => hfinished⟩

theorem loop_outer {c : Call} (turns : List Turn) :
    ∀ {s : Loop}, s.Sound → ∀ e, (loop c s turns).1 = some (.error e) → Outer e := by
  induction turns with
  | nil =>
    intro s _ e he
    cases he
  | cons t turns ih =>
    intro s h e he
    have hturn := @turn_sound c s h t
    unfold loop at he
    split at he
    · rename_i result events hnext
      obtain rfl := Option.some.inj he
      exact hturn.2 e (by rw [hnext])
    · rename_i s' events hnext
      exact ih (hturn.1 s' (by rw [hnext])) e he

def answerOf (result : Except LinkError TerminalResponse) : Except LinkError Json := result.bind TerminalResponse.result

theorem finish_result {r : Response} {t : TerminalResponse} {e : LinkError} (h : finish r none = .ok t)
    (he : t.result = .error e) : ∃ error, r.ok = false ∧ r.error = some error ∧ e = .emulator error.kind error.message := by
  unfold finish at h
  split at h
  · cases h
  · split_ifs at h with hok
    · cases h
      cases he
    · split at h
      · cases h
      · rename_i error herror
        cases h
        cases he
        exact ⟨error, by simpa using hok, herror, rfl⟩

theorem finish_value {r : Response} {t : TerminalResponse} {v : Json} (h : finish r none = .ok t)
    (hv : t.result = .ok v) : r.ok = true ∧ v = r.result.getD .null := by
  unfold finish at h
  split at h
  · cases h
  · split_ifs at h with hok
    · cases h
      cases hv
      exact ⟨hok, rfl⟩
    · split at h
      · cases h
      · cases h
        cases hv

theorem accept_error {request : Request} {abortId : Nat} {control : ProgressCallControl} {cancelled : Bool}
    {e : LinkError} (h : accept request abortId control cancelled = .error e) :
    (∃ message, e = .protocol message) ∨ e = .cancelled := by
  simp only [accept, boundKey, bind, Except.bind] at h
  split at h
  · cases h
    exact .inl ⟨_, rfl⟩
  split at h
  · cases h
    exact .inl ⟨_, rfl⟩
  split at h
  · cases h
    exact .inl ⟨_, rfl⟩
  split at h
  · cases h
    exact .inl ⟨_, rfl⟩
  split at h
  · rename_i herror
    split_ifs at herror
    cases herror
    cases h
    exact .inl ⟨_, rfl⟩
  split_ifs at h
  · cases h
    exact .inl ⟨_, rfl⟩
  · cases h
    exact .inr rfl

theorem exchangeInner_outer {request : Request} {abortId : Nat} {control : ProgressCallControl} {maxHost : Nat}
    {d : Dispatch} {turns : List Turn} {e : LinkError}
    (h : (exchangeInner request abortId control maxHost d turns).1 = some (.error e)) : Outer e ∨ e = .cancelled := by
  unfold exchangeInner at h
  split at h
  · rename_i error haccept
    obtain rfl := Except.error.inj (Option.some.inj h)
    rcases accept_error haccept with hprotocol | hcancelled
    · exact .inl (.inl hprotocol)
    · exact .inr hcancelled
  · left
    dsimp only at h
    split_ifs at h
    · obtain rfl := Except.error.inj (Option.some.inj h)
      exact outer_unverified _
    split at h
    · obtain rfl := Except.error.inj (Option.some.inj h)
      exact outer_unverified _
    · split at h
      · obtain rfl := Except.error.inj (Option.some.inj h)
        exact outer_unverified _
      · exact loop_outer turns (fun e he => by cases he) e h

/-- A call that is answered with `Cancelled` has written nothing. -/
theorem exchangeInner_cancelled {request : Request} {abortId : Nat} {control : ProgressCallControl} {maxHost : Nat}
    {d : Dispatch} {turns : List Turn} {result : Except LinkError TerminalResponse}
    (h : (exchangeInner request abortId control maxHost d turns).1 = some result)
    (hcancelled : answerOf result = .error .cancelled) :
    (exchangeInner request abortId control maxHost d turns).2 = [] := by
  rcases exchange_drains request abortId control maxHost d turns with ⟨-, hnone⟩ | ⟨c, -, -, -, before, aborted, after,
    -, hdone, -⟩
  · exact hnone
  cases result with
  | ok t =>
    obtain ⟨r, -, hfinish⟩ := hdone.terminal t h
    obtain ⟨error, -, -, he⟩ := finish_result hfinish hcancelled
    cases he
  | error e =>
    obtain rfl : e = .cancelled := Except.error.inj hcancelled
    unfold exchangeInner at h ⊢
    split at h
    · rfl
    · dsimp only at h ⊢
      split_ifs at h ⊢
      · rfl
      split at h
      · rfl
      · split at h
        · cases h
        · obtain ⟨message, he⟩ | ⟨reason, he⟩ := loop_outer turns (fun e he => by cases he) .cancelled h
          · cases he
          · cases he

/-- An answer that carries the abort's id before the abort is written is passed over as unrelated, and
a second one is then taken as the acknowledgement. -/
theorem exchange_reads_two_abort_answers :
    let key := OperationKey.toValue ⟨"launch-a", "owner-a", "operation-a"⟩
    let control : ProgressCallControl := ⟨some ⟨"cancel_operation", key⟩, some 2000, some 300, none⟩
    let answer : Response := ⟨2, true, some (.obj [("status", .str "requested")]), none⟩
    let line (id : Nat) (result : Json) : Line :=
      .doc (.obj [("id", .nat id), ("ok", .bool true), ("result", result)])
    let turn (cancelledAt : Option Nat) (poll : Poll) : Turn :=
      ⟨1, .ok (), cancelledAt, 1, .ok (), .ok (), poll⟩
    let run := exchangeInner (.new 1 "step" (.obj [("_control", key)])) 2 control 2000
      ⟨false, 0, 0, .ok (), .ok ()⟩
      [turn none (.line (line 2 (.obj [("status", .str "requested")]))),
        turn (some 1) (.line (line 2 (.obj [("status", .str "requested")]))),
        turn (some 1) (.line (line 1 (.obj [("count", .nat 1)]))),
        turn (some 1) .pending]
    run.1 = some (.ok ⟨.ok (.obj [("count", .nat 1)])⟩) ∧
      run.2.count (.abort (.new 2 "cancel_operation" key)) = 1 ∧
      run.2.count (.response answer) = 2 ∧
      acknowledge answer = .ok () := by
  decide +kernel

end Emucap.Live.Temporal
