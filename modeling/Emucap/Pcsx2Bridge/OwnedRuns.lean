import Emucap.Pcsx2Bridge.StepConduct

/-!
# Runs of a bridge

Calls of `owned_frame_step` and `verify_owned_pause` one after another, with what the surroundings set between them. The
last id is above every id admitted before, so an operation that is admitted has an id of its own; and a call that fails
leaves a backend on which nothing is done any more.
-/

namespace Emucap.Pcsx2Bridge

open Emucap.Lib

/-- The counts that `step` lets through. -/
abbrev AdvanceCount := {count : ℕ // 1 ≤ count ∧ count ≤ maxSyncAdvanceCount}

inductive Operation where
  | ownedFrameStep (count : AdvanceCount)
  | verifyOwnedPause (deadline : ℕ)

structure Call where
  operation : Operation
  ioDeadline : Option ℕ
  nativeStopDeadline : Option ℕ

inductive Value where
  | stepped (value : Json)
  | paused
  deriving DecidableEq

def programOf : Operation → Pine Value
  | .ownedFrameStep count => Value.stepped <$> ownedFrameStep count.1
  | .verifyOwnedPause deadline => (fun _ => Value.paused) <$> verifyOwnedPause deadline

def Call.prepare (call : Call) : Memory → Memory :=
  onBridge fun b => { b with ioDeadline := call.ioDeadline, nativeStopDeadline := call.nativeStopDeadline }

structure Record where
  call : Call
  before : Memory
  deeds : List Deed
  outcome : Except (Halt Pcsx2BridgeError) Value
  after : Memory

def perform (call : Call) (answers : List Answer) (memory : Memory) : Record × List Answer :=
  match programOf call.operation ⟨⟨answers, call.prepare memory⟩, []⟩ with
  | .ok value u => (⟨call, memory, u.trace, .ok value, u.state.memory⟩, u.state.answers)
  | .error e u => (⟨call, memory, u.trace, .error e, u.state.memory⟩, u.state.answers)

def Record.returned (r : Record) : Bool :=
  match r.outcome with
  | .ok _ | .error (.failed _) => true
  | _ => false

def run : List Call → List Answer → Memory → List Record
  | [], _, _ => []
  | call :: rest, answers, memory =>
    (perform call answers memory).1 ::
      if (perform call answers memory).1.returned then
        run rest (perform call answers memory).2 (perform call answers memory).1.after
      else []

/-! ## One call -/

structure Fits (r : Record) : Prop where
  cancels : (commands r.deeds).count Cancel ≤ 1
  finishes : (commands r.deeds).count Finish ≤ 1
  admitted : ∀ id ∈ admissions r.deeds,
    r.before.bridge.lastNativeId < id ∧ id ≤ r.after.bridge.lastNativeId
  grows : r.before.bridge.lastNativeId ≤ r.after.bridge.lastNativeId
  fails : ∀ e, r.outcome = .error (.failed e) →
    (e = .cancelled ∧ r.deeds = []) ∨ r.after.bridge.controlUnverified = true
  fenced : backendTerminal r.before = true → r.deeds = [] ∧ backendTerminal r.after = true
  stepped : ∀ count value, r.call.operation = .ownedFrameStep count → r.outcome = .ok (.stepped value) →
    ∃ terminal, value = stepValue count.1 terminal ∧
      Released count.1 r.before.bridge.lastNativeId r.deeds terminal

section perform
variable {call : Call} {answers : List Answer} {memory : Memory}

theorem perform_of_wp {P : Record → Prop}
    (h : wp (programOf call.operation) (fun value u => P ⟨call, memory, u.trace, .ok value, u.state.memory⟩)
      (fun e u => P ⟨call, memory, u.trace, .error e, u.state.memory⟩) ⟨⟨answers, call.prepare memory⟩, []⟩) :
    P (perform call answers memory).1 := by
  unfold perform
  unfold wp at h
  cases hrun : programOf call.operation ⟨⟨answers, call.prepare memory⟩, []⟩ with
  | ok value u =>
    rw [hrun] at h
    exact h
  | error e u =>
    rw [hrun] at h
    exact h

theorem perform_before : (perform call answers memory).1.before = memory :=
  perform_of_wp (P := fun r => r.before = memory) (wp_mono (wp_top _ _) (fun _ _ _ => rfl) fun _ _ _ => rfl)

theorem perform_call : (perform call answers memory).1.call = call :=
  perform_of_wp (P := fun r => r.call = call) (wp_mono (wp_top _ _) (fun _ _ _ => rfl) fun _ _ _ => rfl)

theorem perform_fenced : backendTerminal memory = true →
    (perform call answers memory).1.deeds = [] ∧ backendTerminal (perform call answers memory).1.after = true := by
  intro hterminal
  have hterminal' : backendTerminal (call.prepare memory) = true := hterminal
  refine perform_of_wp (P := fun r => r.deeds = [] ∧ backendTerminal r.after = true) ?_
  cases hoperation : call.operation with
  | ownedFrameStep count =>
    rw [programOf, wp_map]
    exact wp_mono (ownedFrameStep_retired count.1 hterminal') (fun _ _ h => h.elim)
      fun e u hu => ⟨hu.1, hu.2 hterminal'⟩
  | verifyOwnedPause deadline =>
    rw [programOf, wp_map]
    exact wp_mono (verifyOwnedPause_retired deadline hterminal') (fun _ _ h => h.elim)
      fun e u hu => ⟨hu.1, hu.2 hterminal'⟩

/-- What a call keeps to, apart from the fence. -/
def Kept (r : Record) : Prop :=
  (commands r.deeds).count Cancel ≤ 1 ∧ (commands r.deeds).count Finish ≤ 1 ∧
    (∀ id ∈ admissions r.deeds, r.before.bridge.lastNativeId < id ∧ id ≤ r.after.bridge.lastNativeId) ∧
    r.before.bridge.lastNativeId ≤ r.after.bridge.lastNativeId ∧
    (∀ e, r.outcome = .error (.failed e) →
      (e = .cancelled ∧ r.deeds = []) ∨ r.after.bridge.controlUnverified = true) ∧
    ∀ count value, r.call.operation = .ownedFrameStep count → r.outcome = .ok (.stepped value) →
      ∃ terminal, value = stepValue count.1 terminal ∧
        Released count.1 r.before.bridge.lastNativeId r.deeds terminal

theorem kept_of_error {e : Halt Pcsx2BridgeError} {u : World} (h : Orderly memory.bridge.lastNativeId u)
    (hfails : ∀ error, e = .failed error →
      (error = .cancelled ∧ u.trace = []) ∨ u.state.memory.bridge.controlUnverified = true) :
    Kept ⟨call, memory, u.trace, .error e, u.state.memory⟩ :=
  ⟨h.cancels, h.finishes, h.admitted, h.grows, fun error he => hfails error (Except.error.inj he), nofun⟩

theorem kept_of_reported {e : Halt Pcsx2BridgeError} {u : World} (h : Reported memory.bridge.lastNativeId e u) :
    Kept ⟨call, memory, u.trace, .error e, u.state.memory⟩ :=
  kept_of_error h.1 fun error he => .inr (h.2 ⟨error, he⟩)

theorem perform_kept : Kept (perform call answers memory).1 := by
  have hlast : lastId ⟨⟨answers, call.prepare memory⟩, []⟩ = memory.bridge.lastNativeId := rfl
  refine perform_of_wp (P := Kept) ?_
  cases hoperation : call.operation with
  | verifyOwnedPause deadline =>
    rw [programOf, wp_map]
    refine wp_mono (verifyOwnedPause_spec deadline rfl) (fun _ u hu => ?_) fun e u hu => kept_of_reported hu
    exact ⟨hu.cancels, hu.finishes, hu.admitted, hu.grows, nofun, nofun⟩
  | ownedFrameStep count =>
    rw [programOf, wp_map]
    refine wp_mono (ownedFrameStep_spec count.1 rfl) (fun value u hu => ?_) fun e u hu => ?_
    · obtain ⟨horderly, terminal, rfl, hreleased⟩ := hu
      have hsmall : count.1 % 2 ^ 32 = count.1 := by
        have hle : count.1 ≤ 5000 := count.2.2
        omega
      rw [hsmall] at hreleased
      refine ⟨horderly.cancels, horderly.finishes, horderly.admitted, horderly.grows, nofun, ?_⟩
      intro count' value' hsame hvalue
      rw [hoperation] at hsame
      cases hsame
      cases hvalue
      exact ⟨terminal, rfl, hreleased⟩
    · rcases hu with ⟨rfl, htrace, horderly⟩ | hreported
      · refine kept_of_error horderly fun error he => .inl ⟨?_, htrace⟩
        cases he
        rfl
      · exact kept_of_reported hreported

theorem perform_fits : Fits (perform call answers memory).1 := by
  obtain ⟨hcancels, hfinishes, hadmitted, hgrows, hfails, hstepped⟩ := @perform_kept call answers memory
  refine ⟨hcancels, hfinishes, hadmitted, hgrows, hfails, fun hterminal => perform_fenced ?_, hstepped⟩
  rwa [perform_before] at hterminal

end perform

/-! ## Runs -/

section run
variable {calls : List Call} {answers : List Answer} {memory : Memory}

theorem run_fits : ∀ r ∈ run calls answers memory, Fits r := by
  induction calls generalizing answers memory with
  | nil => exact fun _ h => absurd h List.not_mem_nil
  | cons call rest ih =>
    rw [run, List.forall_mem_cons]
    refine ⟨perform_fits, ?_⟩
    split
    · exact ih
    · exact fun _ h => absurd h List.not_mem_nil

theorem run_chained : (run calls answers memory).IsChain fun q r => r.before = q.after := by
  induction calls generalizing answers memory with
  | nil => exact .nil
  | cons call rest ih =>
    rw [run]
    split
    · cases rest with
      | nil => exact .singleton _
      | cons call' rest =>
        have hrest := @ih (perform call answers memory).2 (perform call answers memory).1.after
        rw [run] at hrest ⊢
        exact .cons_cons perform_before hrest
    · exact .singleton _

/-- What is kept from call to call: the last id does not decrease, and a terminal backend stays terminal. -/
theorem run_later : (run calls answers memory).Pairwise fun q r =>
    q.after.bridge.lastNativeId ≤ r.before.bridge.lastNativeId ∧
      (backendTerminal q.after = true → backendTerminal r.before = true) := by
  have hfits := @run_fits calls answers memory
  have hchained := @run_chained calls answers memory
  generalize run calls answers memory = records at hfits hchained
  induction records with
  | nil => exact .nil
  | cons q rest ih =>
    rw [List.forall_mem_cons] at hfits
    rw [List.pairwise_cons]
    have hrest := ih hfits.2 hchained.of_cons
    refine ⟨?_, hrest⟩
    cases rest with
    | nil => exact fun _ h => absurd h List.not_mem_nil
    | cons q' rest =>
      have hnext : q'.before = q.after := (List.isChain_cons_cons.mp hchained).1
      rw [List.pairwise_cons] at hrest
      have hq' := hfits.2 q' List.mem_cons_self
      rw [List.forall_mem_cons]
      refine ⟨⟨Nat.le_of_eq (by rw [hnext]), fun h => by rw [hnext]; exact h⟩, ?_⟩
      intro r hr
      obtain ⟨hle, hterminal⟩ := hrest.1 r hr
      refine ⟨?_, fun h => hterminal (hq'.fenced (by rw [hnext]; exact h)).2⟩
      have hgrows := hq'.grows
      rw [hnext] at hgrows
      exact Nat.le_trans hgrows hle

theorem run_single (call : Call) : run [call] answers memory = [(perform call answers memory).1] := by
  rw [run]
  split
  · rfl
  · rfl

theorem run_before {before after : List Record} {r : Record} (h : run calls answers memory = before ++ r :: after) :
    Fits r ∧ ∀ q ∈ before, (∀ id ∈ admissions q.deeds, id ≤ r.before.bridge.lastNativeId) ∧
      (backendTerminal q.after = true → backendTerminal r.before = true) := by
  have hfits := @run_fits calls answers memory
  have hlater := @run_later calls answers memory
  rw [h] at hfits hlater
  refine ⟨hfits r (List.mem_append_right _ List.mem_cons_self), fun q hq => ?_⟩
  obtain ⟨hle, hterminal⟩ := (List.pairwise_append.mp hlater).2.2 q hq r List.mem_cons_self
  refine ⟨fun id hid => ?_, hterminal⟩
  exact Nat.le_trans ((hfits q (List.mem_append_left _ hq)).admitted id hid).2 hle

end run

theorem Released.receipts_agree {requested last : ℕ} {deeds : List Deed} {terminal : Receipt}
    (h : Released requested last deeds terminal) :
    (∀ a ∈ receipts requested deeds, a.id = terminal.id ∧ a.generation = terminal.generation ∧
      a.requested = requested ∧ (a.phase ≠ 0 → a.start = terminal.start)) ∧
    (receipts requested deeds).Pairwise (fun a b => a.phase ≤ b.phase ∧ a.count ≤ b.count) ∧
    (commands deeds).count Finish = 1 ∧ terminal.count = terminal.last - terminal.start ∧
    terminal.count ≤ requested ∧ (terminal.reason = 0 ↔ terminal.count = requested) := by
  obtain ⟨before, body, after, third, earlier, htrace, hbefore, hafter, -⟩ := h.finish
  have hmem : terminal ∈ receipts requested deeds := by
    obtain ⟨before, hlatest⟩ := h.chain.latest
    rw [hlatest]
    exact List.mem_append_right _ (List.mem_singleton_self terminal)
  obtain ⟨-, -, hrequested, -, -, hle, -, ⟨-, hcount⟩, -, hreason⟩ := h.chain.consistent terminal hmem
  have hphase := h.phase
  refine ⟨fun a ha => ?_, h.chain.ordered.imp fun hf => ⟨hf.2.2.2.1, hf.2.2.2.2.1⟩, ?_, hcount.symm, ?_, ?_⟩
  · obtain ⟨hid, hgeneration, -, -, -, hstart, -⟩ := h.chain.follows a ha
    exact ⟨hid.symm, hgeneration.symm, (h.chain.consistent a ha).2.2.1, fun hne => (hstart hne).symm⟩
  · rw [htrace, commands_append, List.count_append, List.count_eq_zero.mpr hbefore]
    show 0 + (Finish :: commands after).count Finish = 1
    rw [List.count_cons_self, List.count_eq_zero.mpr hafter]
  · rw [hrequested] at hle
    exact hle
  · rw [hreason (by omega), hrequested]

theorem stepValue_get (count : ℕ) (terminal : Receipt) :
    (stepValue count terminal).get "count" = some (.nat terminal.count) ∧
      ((stepValue count terminal).get "status" = some (.str "completed") ↔ terminal.reason = 0) := by
  refine ⟨rfl, ?_⟩
  show some (Json.str (if terminal.reason = 0 then "completed" else "interrupted")) = some (.str "completed") ↔ _
  by_cases hzero : terminal.reason = 0
  · simp [hzero]
  · simp [hzero]

/-- Whatever the peer answers and whenever a cancellation or a deadline comes, over any run of calls. -/
theorem owned_frame_receipts (calls : List Call) (answers : List Answer) (memory : Memory) :
    (∀ before r after, run calls answers memory = before ++ r :: after →
      (∀ count value, r.call.operation = .ownedFrameStep count → r.outcome = .ok (.stepped value) →
        ∃ terminal, Released count.1 r.before.bridge.lastNativeId r.deeds terminal ∧
          (∀ q ∈ before, ∀ id ∈ admissions q.deeds, id < terminal.id) ∧
          (∀ a ∈ receipts count.1 r.deeds, a.id = terminal.id ∧ a.generation = terminal.generation ∧
            a.requested = count.1 ∧ (a.phase ≠ 0 → a.start = terminal.start)) ∧
          (receipts count.1 r.deeds).Pairwise (fun a b => a.phase ≤ b.phase ∧ a.count ≤ b.count) ∧
          (commands r.deeds).count Finish = 1 ∧
          value.get "count" = some (.nat (terminal.last - terminal.start)) ∧
          terminal.last - terminal.start ≤ count.1 ∧
          (value.get "status" = some (.str "completed") ↔ terminal.last - terminal.start = count.1)) ∧
      (commands r.deeds).count Cancel ≤ 1 ∧
      (∀ e, r.outcome = .error (.failed e) →
        (e = .cancelled ∧ r.deeds = []) ∨ r.after.bridge.controlUnverified = true) ∧
      ((∃ q ∈ before, backendTerminal q.after = true) → r.deeds = [])) ∧
    (∀ request timeout w e u, transactWithTimeout request timeout w = .error (.failed e) u → e.breaksStream →
      u.trace ≠ w.trace → u.state.memory.socket.terminal = true) ∧
    ∀ request timeout w, w.state.memory.socket.terminal = true →
      (after (transactWithTimeout request timeout) w).trace = w.trace ∧
        (after (transactWithTimeout request timeout) w).state.memory.socket.terminal = true := by
  refine ⟨?_, ?_, ?_⟩
  · intro before r after h
    obtain ⟨hfits, hbefore⟩ := run_before h
    refine ⟨?_, hfits.cancels, hfits.fails, ?_⟩
    · intro count value hcall hvalue
      obtain ⟨terminal, rfl, hreleased⟩ := hfits.stepped count value hcall hvalue
      obtain ⟨hagree, hordered, hfinish, hcount, hle, hreason⟩ := hreleased.receipts_agree
      obtain ⟨hget, hstatus⟩ := stepValue_get count.1 terminal
      refine ⟨terminal, hreleased, fun q hq id hid => ?_, hagree, hordered, hfinish, ?_, ?_, ?_⟩
      · exact Nat.lt_of_le_of_lt ((hbefore q hq).1 id hid) hreleased.larger
      · rw [hget, hcount]
      · rwa [← hcount]
      · rw [hstatus, hreason, hcount]
    · intro ⟨q, hq, hterminal⟩
      exact (hfits.fenced ((hbefore q hq).2 hterminal)).1
  · intro request timeout w e u hrun hbreaks hmoved
    exact (wp_error (transactWithTimeout_spec request timeout w) hrun).2 e rfl hbreaks hmoved
  · intro request timeout w hterminal
    refine after_of_wp (P := fun u => u.trace = w.trace ∧ u.state.memory.socket.terminal = true)
      (wp_mono (transactWithTimeout_spec request timeout w) ?_ ?_)
    · exact fun _ u hu => hu.1.fenced hterminal
    · exact fun _ u hu => hu.1.fenced hterminal

/-! ## An operation that starts late -/

def receiptBytes (r : Receipt) : List UInt8 :=
  littleEndian 8 r.id ++ littleEndian 8 r.generation ++ littleEndian 8 r.start ++ littleEndian 8 r.last ++
    littleEndian 4 r.requested ++ littleEndian 4 r.count ++ littleEndian 4 r.phase ++ littleEndian 4 r.reason

/-- The answers to one exchange of thirteen bytes that brings a receipt. -/
def exchangeAnswers (r : Receipt) : List Answer :=
  [.now 0, .now 0, .now 0, .timeouts (.ok ()), .now 0, .setTimeouts (.ok ()), .write (.ok 13), .flush (.ok ()), .now 0,
    .setTimeouts (.ok ()), .read (.ok (littleEndian 4 53 ++ [0])), .now 0, .setTimeouts (.ok ()),
    .read (.ok (receiptBytes r)), .now 0, .setTimeouts (.ok ()), .now 0]

def twoFrames : List Answer :=
  [.cancellation none, .now 0] ++ exchangeAnswers ⟨1, 1, 0, 0, 2, 0, 0, 0⟩ ++
    [.cancellation none, .now 0, .now 0, .cancellation none, .now 0, .now 0] ++
    exchangeAnswers ⟨1, 1, 100, 102, 2, 2, 3, 0⟩ ++ [.cancellation none, .now 0, .now 0, .now 0] ++
    exchangeAnswers ⟨1, 1, 100, 102, 2, 2, 5, 0⟩ ++ [.now 0]

def connected : Memory := ⟨⟨false, none⟩, ⟨false, none, none, 0, 0⟩⟩

def stepTwo : Call := ⟨.ownedFrameStep ⟨2, by decide⟩, none, none⟩

theorem twoFrames_returns : (perform stepTwo twoFrames connected).1.outcome =
    .ok (.stepped (stepValue 2 ⟨1, 1, 100, 102, 2, 2, 5, 0⟩)) := by
  decide +kernel

/-- The receipts of one operation need not have one start: that of the admission has none yet. -/
theorem receipts_start_late : (perform stepTwo twoFrames connected).1.outcome =
      .ok (.stepped (stepValue 2 ⟨1, 1, 100, 102, 2, 2, 5, 0⟩)) ∧
    (receipts 2 (perform stepTwo twoFrames connected).1.deeds).map (·.start) = [0, 100, 100] := by
  decide +kernel

theorem owned_frame_receipts_two : ∃ terminal, Released 2 0 (perform stepTwo twoFrames connected).1.deeds terminal ∧
    (commands (perform stepTwo twoFrames connected).1.deeds).count Finish = 1 := by
  have hrun : run [stepTwo] twoFrames connected = [] ++ (perform stepTwo twoFrames connected).1 :: [] := by
    rw [run_single, List.nil_append]
  have hcall : (perform stepTwo twoFrames connected).1.call.operation = .ownedFrameStep ⟨2, by decide⟩ := by
    rw [perform_call]
    rfl
  have hbefore : (perform stepTwo twoFrames connected).1.before = connected := perform_before
  have hreturns := twoFrames_returns
  -- what the record is does not matter from here on
  generalize (perform stepTwo twoFrames connected).1 = r at hrun hcall hbefore hreturns
  obtain ⟨terminal, hreleased, -, -, -, hfinish, -⟩ :=
    ((owned_frame_receipts [stepTwo] twoFrames connected).1 _ _ _ hrun).1 _ _ hcall hreturns
  rw [hbefore] at hreleased
  exact ⟨terminal, hreleased, hfinish⟩

end Emucap.Pcsx2Bridge
