import Emucap.Pcsx2Bridge.ReceiptChain

/-!
# The conduct of one call

What a call has sent wherever it ends (`Orderly`), what it can say if it returns a value (`Stepped`), and that a call on
a bridge whose backend is terminal does nothing at all.
-/

namespace Emucap.Pcsx2Bridge

open Emucap.Lib

variable {w u v : World} {count last : ℕ} {r terminal : Receipt} {sentCancel : Bool}

def Quiet (w u : World) : Prop := u.trace = w.trace ∧ lastId u = lastId w

theorem Quiet.trans (h : Quiet w u) (h' : Quiet u v) : Quiet w v := ⟨h'.1.trans h.1, h'.2.trans h.2⟩

theorem Quiet.does (h : Quiet w u) : Does [] w u := does_of_memory h.1 h.2

theorem Still.quiet (h : Still w u) : Quiet w u := ⟨h.1, h.does.lastId⟩

theorem rememberCancelDeadline_spec (w : World) :
    wp rememberCancelDeadline (fun _ u => Quiet w u) (fun e u => Quiet w u ∧ e = .cut) w := by
  rw [rememberCancelDeadline, wp_bind]
  refine wp_ask_memory (fun cancelledAt u hu hm => ?_) fun u hu hm => ⟨Still.quiet ⟨hu, hm⟩, rfl⟩
  have hquiet : Quiet w u := Still.quiet ⟨hu, hm⟩
  cases cancelledAt with
  | none => exact hquiet
  | some at' => exact wp_remember hquiet

theorem quiet_expireExecution (executionEnd : ℕ) : Keeps Quiet (expireExecution executionEnd) := by
  refine Keeps.bind ((asks_ask _).mono Still.quiet) (fun now => ?_) Quiet.trans
  exact keeps_ite (fun _ => ⟨rfl, rfl⟩) ((asks_pure ()).mono Still.quiet)

theorem asks_wantsCancel (executionEnd : ℕ) : Asks (stepRounds.wantsCancel executionEnd sentCancel) :=
  keeps_ite (asks_pure _) ((asks_ask _).next fun _ => keeps_ite (asks_pure _) ((asks_ask _).next fun _ => asks_pure _))

theorem wantsCancel_spec {executionEnd : ℕ} {w : World} : wp (stepRounds.wantsCancel executionEnd sentCancel)
    (fun wanted u => Still w u ∧ (wanted = true → sentCancel = false)) (fun _ u => Still w u) w := by
  cases sentCancel with
  | true => exact ⟨.refl w, nofun⟩
  | false =>
    refine wp_mono (asks_wantsCancel executionEnd w) (fun _ _ hu => ⟨hu, fun _ => rfl⟩) fun _ _ hu => hu

/-! ## Between two rounds -/

/-- What the deeds are wherever a call ends; `last` is the last id before it. -/
structure Orderly (last : ℕ) (u : World) : Prop where
  cancels : (commands u.trace).count Cancel ≤ 1
  finishes : (commands u.trace).count Finish ≤ 1
  admitted : ∀ id ∈ admissions u.trace, last < id ∧ id ≤ lastId u
  grows : last ≤ lastId u

/-- What the deeds are between two rounds. -/
structure Stepping (requested last : ℕ) (u : World) (opcode : UInt8) (r : Receipt) (sentCancel : Bool) : Prop where
  chain : Chain requested u.trace r
  sent : ∃ rest, commands u.trace = opcode :: rest ∧ (∀ c ∈ rest, c = Poll ∨ c = Cancel) ∧
    rest.count Cancel = if sentCancel then 1 else 0
  opening : opcode = Begin ∨ opcode = Pause
  admitted : admissions u.trace = [r.id]
  larger : last < r.id
  lastId : lastId u = r.id

section stepping
variable {requested : ℕ} {opcode : UInt8}

theorem opening_ne (h : opcode = Begin ∨ opcode = Pause) : opcode ≠ Cancel ∧ opcode ≠ Finish := by
  rcases h with rfl | rfl
  · decide
  · decide

theorem Stepping.quiet (h : Stepping requested last w opcode r sentCancel) (hu : Quiet w u) :
    Stepping requested last u opcode r sentCancel := by
  obtain ⟨hchain, hsent, hopening, hadmitted, hlarger, hlast⟩ := h
  rw [← hu.1] at hchain hsent hadmitted
  exact ⟨hchain, hsent, hopening, hadmitted, hlarger, hu.2.trans hlast⟩

theorem Stepping.noFinish (h : Stepping requested last w opcode r sentCancel) : Finish ∉ commands w.trace := by
  obtain ⟨rest, hsent, hrest, -⟩ := h.sent
  rw [hsent, List.mem_cons]
  rintro (hfirst | hmem)
  · exact (opening_ne h.opening).2 hfirst.symm
  · rcases hrest _ hmem with h' | h'
    · exact absurd h' (by decide)
    · exact absurd h' (by decide)

theorem Stepping.orderly {sent : List UInt8} (h : Stepping requested last w opcode r sentCancel) (hdoes : Does sent w u)
    (hcancel : sent.count Cancel ≤ if sentCancel then 0 else 1) (hfinish : sent.count Finish ≤ 1) : Orderly last u := by
  obtain ⟨rest, hsent, -, hcount⟩ := h.sent
  obtain ⟨hcancel', hfinish'⟩ := opening_ne h.opening
  have hadmitted : admissions u.trace = [r.id] := hdoes.admissions.trans h.admitted
  have hlast : Pcsx2Bridge.lastId u = r.id := hdoes.lastId.trans h.lastId
  have hlarger := h.larger
  refine ⟨?_, ?_, ?_, ?_⟩
  · rw [hdoes.commands, List.count_append, hsent, List.count_cons_of_ne hcancel', hcount]
    cases sentCancel with
    | true =>
      simp only [if_true] at hcancel ⊢
      omega
    | false =>
      simp only [Bool.false_eq_true, if_false] at hcancel ⊢
      omega
  · rw [hdoes.commands, List.count_append, List.count_eq_zero.mpr h.noFinish]
    omega
  · rw [hadmitted]
    intro id hid
    rw [List.mem_singleton] at hid
    omega
  · omega

theorem Stepping.fell (h : Stepping requested last w opcode r sentCancel) {command : UInt8} (hfell : Fell command w u)
    (hcommand : command = Poll ∨ (command = Cancel ∧ sentCancel = false)) : Orderly last u := by
  obtain ⟨sent, hdoes, rfl | rfl⟩ := hfell
  · exact h.orderly hdoes (Nat.zero_le _) (Nat.zero_le _)
  · rcases hcommand with rfl | ⟨rfl, rfl⟩
    · exact h.orderly hdoes (Nat.zero_le _) (Nat.zero_le _)
    · exact h.orderly hdoes (Nat.le_refl _) (Nat.zero_le _)

theorem Stepping.still (h : Stepping requested last w opcode r sentCancel) (hu : Still w u) : Orderly last u :=
  h.fell hu.fell (.inl rfl)

theorem Stepping.heard {next : Receipt} {command : UInt8} (h : Stepping requested last w opcode r sentCancel)
    (hheard : Heard requested command r next w u) {sentCancel' : Bool}
    (hcommand : (command = Poll ∧ sentCancel' = sentCancel) ∨
      (command = Cancel ∧ sentCancel = false ∧ sentCancel' = true)) :
    Stepping requested last u opcode next sentCancel' := by
  obtain ⟨rest, hsent, hrest, hcount⟩ := h.sent
  have hdoes := hheard.does
  have hid : next.id = r.id := hheard.2.1.1
  refine ⟨hheard.1, ⟨rest ++ [command], ?_, ?_, ?_⟩, h.opening, ?_, ?_, ?_⟩
  · rw [hdoes.commands, hsent, List.cons_append]
  · intro c hc
    rcases List.mem_append.mp hc with hc | hc
    · exact hrest c hc
    · rw [List.mem_singleton.mp hc]
      exact hcommand.imp And.left And.left
  · rw [List.count_append, hcount]
    rcases hcommand with ⟨rfl, rfl⟩ | ⟨rfl, rfl, rfl⟩
    · rw [List.count_eq_zero.mpr (by decide), Nat.add_zero]
    · rfl
  · rw [hdoes.admissions, h.admitted, hid]
  · rw [hid]
    exact h.larger
  · rw [hdoes.lastId, h.lastId, hid]

theorem Stepping.unfinished (h : Stepping requested last w opcode r sentCancel) (hu : Unfinished w u) :
    Orderly last u := by
  obtain ⟨sent, hdoes, rfl | ⟨polls, rfl, hpolls⟩⟩ := hu
  · exact h.orderly hdoes (Nat.zero_le _) (Nat.zero_le _)
  · have hnot : ∀ {c : UInt8}, c ≠ Poll → polls.count c = 0 := fun hne =>
      List.count_eq_zero.mpr fun hmem => hne (hpolls _ hmem)
    refine h.orderly hdoes ?_ ?_
    · rw [List.count_cons_of_ne (by decide), hnot (by decide)]
      exact Nat.zero_le _
    · rw [List.count_cons_self, hnot (by decide)]

/-- What is known of an operation that was released. -/
structure Released (requested last : ℕ) (deeds : List Deed) (terminal : Receipt) : Prop where
  chain : Chain requested deeds terminal
  phase : terminal.phase = 5
  larger : last < terminal.id
  finish : ∃ before body after third earlier, deeds = before ++ .requested Finish body :: after ∧
    Finish ∉ commands before ∧ Finish ∉ commands after ∧ receipts requested before = earlier ++ [third] ∧
    third.phase = 3 ∧ third.count = terminal.count ∧ third.reason = terminal.reason

theorem Stepping.released (h : Stepping requested last w opcode r sentCancel)
    (hu : Finished requested r terminal w u) : Orderly last u ∧ Released requested last u.trace terminal := by
  obtain ⟨hchain, hthree, hfive, hfollows, hid, body, after, htrace, hpolls, hadmissions⟩ := hu
  obtain ⟨earlier, hlatest⟩ := h.chain.latest
  have hlarger := h.larger
  have hsame : terminal.id = r.id := hfollows.1
  obtain ⟨hcount, hreason⟩ := hfollows.2.2.2.2.2.2 (by omega)
  refine ⟨h.unfinished ⟨Finish :: commands after, ⟨_, htrace, rfl, hadmissions, hid⟩, .inr ⟨_, rfl, hpolls⟩⟩,
    hchain, hfive, by omega, w.trace, body, after, r, earlier, htrace, h.noFinish, ?_, hlatest, hthree, hcount.symm,
    hreason.symm⟩
  intro hmem
  exact absurd (hpolls _ hmem) (by decide)

end stepping

/-! ## Calls -/

theorem stepRounds_spec {requested executionEnd n : ℕ} (h : Stepping requested last w Begin r sentCancel) :
    wp (stepRounds count executionEnd n r sentCancel)
      (fun value u => Orderly last u ∧ ∃ terminal, value = stepValue count terminal ∧
        Released requested last u.trace terminal)
      (fun _ u => Orderly last u) w := by
  induction n generalizing w r sentCancel with
  | zero => exact h.still (.refl w)
  | succ n ih =>
    rw [stepRounds, wp_bind]
    refine wp_mono (rememberCancelDeadline_spec w) ?_ fun _ u hu => (h.quiet hu.1).still (.refl u)
    intro _ u hu
    replace h := h.quiet hu
    rw [wp_bind]
    refine wp_mono (quiet_expireExecution executionEnd u) ?_ fun _ v hv => (h.quiet hv).still (.refl v)
    intro _ x hx
    replace h := h.quiet hx
    rw [wp_bind]
    refine wp_memoryNow ?_
    dsimp only
    rw [wp_bind]
    refine wp_mono (asks_remaining _ x) ?_ fun _ y hy => h.still hy
    intro _ y hy
    replace h := h.quiet hy.quiet
    by_cases hthree : r.phase = 3
    · rw [if_pos hthree, wp_bind]
      refine wp_mono (asks_ask _ y) ?_ fun _ z hz => h.still hz
      intro now z hz
      replace h := h.quiet hz.quiet
      rw [wp_bind]
      refine wp_mono (finishNative_spec h.chain) ?_ fun _ s hs => h.unfinished hs
      intro terminal s hs
      obtain ⟨horderly, hreleased⟩ := h.released hs
      exact ⟨horderly, terminal, rfl, hreleased⟩
    · rw [if_neg hthree, wp_bind]
      refine wp_mono wantsCancel_spec ?_ fun _ z hz => h.still hz
      rintro wanted z ⟨hz, hfirst⟩
      replace h := h.quiet hz.quiet
      cases wanted with
      | true =>
        rw [if_pos rfl, wp_bind]
        have hsent := hfirst rfl
        refine wp_mono (receiptCommand_spec h.chain) ?_ fun _ s hs => h.fell hs (.inr ⟨rfl, hsent⟩)
        intro next s hs
        exact ih (h.heard hs (.inr ⟨rfl, hsent, rfl⟩))
      | false =>
        rw [if_neg Bool.false_ne_true, wp_bind]
        refine wp_mono (asks_remaining _ z) ?_ fun _ s hs => h.still hs
        intro _ s hs
        replace h := h.quiet hs.quiet
        rw [wp_bind]
        refine wp_mono (receiptCommand_spec h.chain) ?_ fun _ s' hs' => h.fell hs' (.inl rfl)
        intro next s' hs'
        exact ih (h.heard hs' (.inl ⟨rfl, rfl⟩))

theorem pauseRounds_spec {deadline n : ℕ} (h : Stepping 0 last w Pause r false) :
    wp (pauseRounds deadline n r) (fun _ u => Orderly last u) (fun _ u => Orderly last u) w := by
  induction n generalizing w r with
  | zero => exact h.still (.refl w)
  | succ n ih =>
    rw [pauseRounds, wp_bind]
    refine wp_mono (asks_remaining _ w) ?_ fun _ y hy => h.still hy
    intro _ y hy
    replace h := h.quiet hy.quiet
    by_cases hthree : r.phase = 3
    · rw [if_pos hthree, wp_bind]
      refine wp_mono (finishNative_spec h.chain) ?_ fun _ s hs => h.unfinished hs
      exact fun terminal s hs => (h.released hs).1
    · rw [if_neg hthree, wp_bind]
      refine wp_mono (asks_remaining _ y) ?_ fun _ s hs => h.still hs
      intro _ s hs
      replace h := h.quiet hs.quiet
      rw [wp_bind]
      refine wp_mono (receiptCommand_spec h.chain) ?_ fun _ s' hs' => h.fell hs' (.inl rfl)
      intro next s' hs'
      exact ih (h.heard hs' (.inl ⟨rfl, rfl⟩))

theorem Fell.orderly {opcode : UInt8} (hw : w.trace = []) (hopening : opcode = Begin ∨ opcode = Pause)
    (h : Fell opcode w u) : Orderly (lastId w) u := by
  obtain ⟨sent, hdoes, hsent⟩ := h
  have hcommands : commands u.trace = sent := by
    rw [hdoes.commands, hw]
    rfl
  have hadmissions : admissions u.trace = [] := by
    rw [hdoes.admissions, hw]
    rfl
  obtain ⟨hcancel, hfinish⟩ := opening_ne hopening
  have hnone : ∀ {c : UInt8}, opcode ≠ c → sent.count c = 0 := by
    intro c hne
    rcases hsent with rfl | rfl
    · rfl
    · rw [List.count_cons_of_ne hne]
      rfl
  refine ⟨?_, ?_, ?_, Nat.le_of_eq hdoes.lastId.symm⟩
  · rw [hcommands, hnone hcancel]
    exact Nat.zero_le _
  · rw [hcommands, hnone hfinish]
    exact Nat.zero_le _
  · rw [hadmissions]
    exact nofun

theorem stepping_of_admitted {requested : ℕ} {opcode : UInt8} (hopening : opcode = Begin ∨ opcode = Pause)
    (h : Chain requested u.trace r ∧ commands u.trace = [opcode] ∧ admissions u.trace = [r.id] ∧ last < r.id ∧
      lastId u = r.id) : Stepping requested last u opcode r false :=
  ⟨h.1, ⟨[], h.2.1, nofun, rfl⟩, hopening, h.2.2.1, h.2.2.2.1, h.2.2.2.2⟩

theorem Orderly.unverified (h : Orderly last u) :
    Orderly last { u with state := { u.state with memory := setUnverified u.state.memory } } :=
  ⟨h.cancels, h.finishes, h.admitted, h.grows⟩

/-- How a call ends that reports a failure: the control is unverified. -/
def Reported (last : ℕ) (e : Halt Pcsx2BridgeError) (u : World) : Prop :=
  Orderly last u ∧ ((∃ error, e = .failed error) → u.state.memory.bridge.controlUnverified = true)

theorem wp_unverified {α : Type} {x : Pine α} {Q : α → World → Prop} (h : wp x Q (fun _ u => Orderly last u) w) :
    wp (onFailure setUnverified x) Q (Reported last) w := by
  rw [onFailure, wp_bind]
  refine wp_outcome (wp_mono h (fun _ _ hu => hu) fun e u hu => ⟨fun error he => ?_, fun hne => ?_⟩)
  · dsimp only
    rw [wp_bind]
    exact wp_remember (wp_refuse ⟨hu.unverified, fun _ => rfl⟩)
  · exact ⟨hu, fun hfailed => hfailed.elim fun error he => absurd he (hne error)⟩

theorem orderly_of_quiet (hw : w.trace = []) (h : Quiet w u) : Orderly (lastId w) u :=
  Fell.orderly hw (.inl rfl) ⟨[], h.does, .inl rfl⟩

theorem verifyOwnedPause_spec (deadline : ℕ) (hw : w.trace = []) :
    wp (verifyOwnedPause deadline) (fun _ u => Orderly (lastId w) u) (Reported (lastId w)) w := by
  refine wp_unverified ?_
  rw [wp_bind]
  refine wp_mono (asks_remaining deadline w) ?_ fun _ u hu => orderly_of_quiet hw hu.quiet
  intro left u hu
  dsimp only
  have hu' : u.trace = [] := hu.1.trans hw
  have hlast : lastId u = lastId w := hu.quiet.2
  split
  · exact orderly_of_quiet hw hu.quiet
  · rw [wp_bind, ← hlast]
    refine wp_mono (admitNative_spec hu') ?_ fun _ v hv => Fell.orderly hu' (.inr rfl) hv
    intro r v hv
    have hstepping := stepping_of_admitted (.inr rfl) hv
    rw [wp_bind]
    refine wp_mono (asks_rounds v) ?_ fun _ x hx => hstepping.still hx
    exact fun n x hx => pauseRounds_spec (hstepping.quiet hx.quiet)

theorem ownedFrameStep_spec (count : ℕ) (hw : w.trace = []) :
    wp (ownedFrameStep count)
      (fun value u => Orderly (lastId w) u ∧ ∃ terminal, value = stepValue count terminal ∧
        Released (count % 2 ^ 32) (lastId w) u.trace terminal)
      (fun e u => (e = .failed .cancelled ∧ u.trace = [] ∧ Orderly (lastId w) u) ∨ Reported (lastId w) e u) w := by
  rw [ownedFrameStep, wp_bind]
  refine wp_ask_memory (fun cancelled u hu hm => ?_) fun u hu hm => ?_
  · have hquiet : Quiet w u := Still.quiet ⟨hu, hm⟩
    have hu' : u.trace = [] := hu.trans hw
    split
    · rw [wp_bind]
      refine wp_mono (rememberCancelDeadline_spec u) ?_ fun e v hv => ?_
      · intro _ v hv
        exact wp_refuse (.inl ⟨rfl, hv.1.trans hu', orderly_of_quiet hw (hquiet.trans hv)⟩)
      · refine .inr ⟨orderly_of_quiet hw (hquiet.trans hv.1), fun ⟨error, he⟩ => ?_⟩
        rw [hv.2] at he
        cases he
    · rw [← hquiet.2]
      refine wp_mono (@wp_unverified u (lastId u) _ _ _ ?_) (fun _ _ hx => hx) fun _ _ hx => .inr hx
      rw [wp_bind]
      refine wp_mono (asks_ask _ u) ?_ fun _ v hv => orderly_of_quiet hu' hv.quiet
      intro now v hv
      dsimp only
      have hv' : v.trace = [] := hv.1.trans hu'
      rw [wp_bind, ← hv.quiet.2]
      refine wp_mono (admitNative_spec hv') ?_ fun _ x hx => Fell.orderly hv' (.inl rfl) hx
      intro r x hx
      have hstepping := stepping_of_admitted (.inl rfl) hx
      rw [wp_bind]
      refine wp_mono (asks_rounds x) ?_ fun _ y hy => hstepping.still hy
      exact fun n y hy => stepRounds_spec (hstepping.quiet hy.quiet)
  · exact .inr ⟨orderly_of_quiet hw (Still.quiet ⟨hu, hm⟩), nofun⟩

/-! ## A bridge that is fenced -/

/-- Nothing is done on a backend that is terminal, and it stays so. -/
def Retired (w u : World) : Prop :=
  u.trace = w.trace ∧ (backendTerminal w.state.memory = true → backendTerminal u.state.memory = true)

theorem Still.retired (h : Still w u) : Retired w u := ⟨h.1, fun hterminal => by rw [h.2]; exact hterminal⟩

theorem Retired.trans (h : Retired w u) (h' : Retired u v) : Retired w v :=
  ⟨h'.1.trans h.1, fun hterminal => h'.2 (h.2 hterminal)⟩

theorem rememberCancelDeadline_retired : Keeps Retired rememberCancelDeadline := by
  refine Keeps.bind ((asks_ask _).mono Still.retired) (fun cancelledAt => ?_) Retired.trans
  cases cancelledAt with
  | none => exact (asks_pure ()).mono Still.retired
  | some at' => exact fun _ => ⟨rfl, fun h => h⟩

theorem admitNative_retired {opcode : UInt8} {body : List UInt8} {requested deadline : ℕ}
    (hterminal : backendTerminal w.state.memory = true) :
    wp (admitNative opcode body requested deadline) (fun _ _ => False) (fun _ u => Retired w u) w := by
  rw [admitNative, wp_bind, boundedCommand, wp_bind]
  refine wp_memoryNow ?_
  rw [if_pos hterminal]
  exact wp_refuse (Still.refl w).retired

theorem wp_unverified_retired {α : Type} {x : Pine α} (h : wp x (fun _ _ => False) (fun _ u => Retired w u) u) :
    wp (onFailure setUnverified x) (fun _ _ => False) (fun _ u => Retired w u) u := by
  rw [onFailure, wp_bind]
  refine wp_outcome (wp_mono h (fun _ _ hu => hu.elim) fun e u hu => ⟨fun error he => ?_, fun hne => hu⟩)
  dsimp only
  rw [wp_bind]
  exact wp_remember (wp_refuse ⟨hu.1, fun _ => rfl⟩)

theorem verifyOwnedPause_retired (deadline : ℕ) (hterminal : backendTerminal w.state.memory = true) :
    wp (verifyOwnedPause deadline) (fun _ _ => False) (fun _ u => Retired w u) w := by
  refine wp_unverified_retired ?_
  rw [wp_bind]
  refine wp_mono (asks_remaining deadline w) ?_ fun _ u hu => hu.retired
  intro left u hu
  dsimp only
  split
  · exact hu.retired
  · rw [wp_bind]
    have hterminal' := hu.retired.2 hterminal
    exact wp_mono (admitNative_retired hterminal') (fun _ _ h => h.elim) fun _ _ hv => hu.retired.trans hv

theorem ownedFrameStep_retired (count : ℕ) (hterminal : backendTerminal w.state.memory = true) :
    wp (ownedFrameStep count) (fun _ _ => False) (fun _ u => Retired w u) w := by
  rw [ownedFrameStep, wp_bind]
  refine wp_mono (asks_ask _ w) ?_ fun _ u hu => hu.retired
  intro cancelled u hu
  have hterminal' := hu.retired.2 hterminal
  split
  · rw [wp_bind]
    refine wp_mono (rememberCancelDeadline_retired u) ?_ fun _ v hv => hu.retired.trans hv
    exact fun _ v hv => wp_refuse (hu.retired.trans hv)
  · refine wp_unverified_retired ?_
    rw [wp_bind]
    refine wp_mono (asks_ask _ u) ?_ fun _ v hv => hu.retired.trans hv.retired
    intro now v hv
    dsimp only
    rw [wp_bind]
    have hretired := hu.retired.trans hv.retired
    refine wp_mono (admitNative_retired (hretired.2 hterminal)) (fun _ _ h => h.elim) fun _ _ hx => hretired.trans hx

end Emucap.Pcsx2Bridge
