import Emucap.Pcsx2Bridge.OwnedFrame
import Emucap.Pcsx2Bridge.PineExchange

/-!
# Chains of receipts

The deeds of a call are read as the commands that were sent and the receipts that came back. Every receipt that is
accepted follows all the earlier ones of its call (`Chain`), and what a command does to the trace is said by `Does`,
however it ends.
-/

namespace Emucap.Pcsx2Bridge

open Emucap.Lib

variable {w u v : World} {requested : ℕ} {a b c r next : Receipt}

/-! ## Receipts that follow one another -/

theorem Receipt.Follows.refl (r : Receipt) : r.Follows r :=
  ⟨rfl, rfl, rfl, Nat.le_refl _, Nat.le_refl _, fun _ => rfl, fun _ => ⟨rfl, rfl⟩⟩

theorem Receipt.Follows.trans (h : b.Follows a) (h' : c.Follows b) : c.Follows a := by
  obtain ⟨hid, hgeneration, hrequested, hphase, hcount, hstart, hlast⟩ := h
  obtain ⟨hid', hgeneration', hrequested', hphase', hcount', hstart', hlast'⟩ := h'
  refine ⟨hid'.trans hid, hgeneration'.trans hgeneration, hrequested'.trans hrequested, Nat.le_trans hphase hphase',
    Nat.le_trans hcount hcount', fun hne => ?_, fun hthree => ?_⟩
  · exact (hstart' (by omega)).trans (hstart hne)
  · obtain ⟨hc, hr⟩ := hlast hthree
    obtain ⟨hc', hr'⟩ := hlast' (Nat.le_trans hthree hphase)
    exact ⟨hc'.trans hc, hr'.trans hr⟩

theorem parse_consistent {reply : List UInt8} (h : Receipt.parse reply requested = .ok r) : r.Consistent requested := by
  unfold Receipt.parse at h
  split_ifs at h with hsize hfault hconsistent
  cases h
  exact hconsistent

/-! ## Reading deeds -/

def Deed.command? : Deed → Option UInt8
  | .requested opcode _ => some opcode
  | _ => none

def Deed.admission? : Deed → Option ℕ
  | .admitted id => some id
  | _ => none

def Deed.receipt? (requested : ℕ) : Deed → Option Receipt
  | .replied _ reply => (Receipt.parse reply requested).toOption
  | _ => none

def commands (deeds : List Deed) : List UInt8 := deeds.filterMap Deed.command?

def admissions (deeds : List Deed) : List ℕ := deeds.filterMap Deed.admission?

def receipts (requested : ℕ) (deeds : List Deed) : List Receipt := deeds.filterMap (Deed.receipt? requested)

@[simp] theorem commands_append (x y : List Deed) : commands (x ++ y) = commands x ++ commands y :=
  List.filterMap_append

@[simp] theorem admissions_append (x y : List Deed) : admissions (x ++ y) = admissions x ++ admissions y :=
  List.filterMap_append

@[simp] theorem receipts_append (x y : List Deed) :
    receipts requested (x ++ y) = receipts requested x ++ receipts requested y := List.filterMap_append

theorem Transfers.silent {deeds : List Deed} (h : Transfers deeds) :
    commands deeds = [] ∧ admissions deeds = [] ∧ receipts requested deeds = [] := by
  have hnone : ∀ d ∈ deeds, d.command? = none ∧ d.admission? = none ∧ d.receipt? requested = none := by
    intro d hd
    have htransfer := h d hd
    cases d with
    | wrote bytes => exact ⟨rfl, rfl, rfl⟩
    | read bytes => exact ⟨rfl, rfl, rfl⟩
    | requested opcode body => exact htransfer.elim
    | replied opcode reply => exact htransfer.elim
    | admitted id => exact htransfer.elim
  exact ⟨List.filterMap_eq_nil_iff.mpr fun d hd => (hnone d hd).1,
    List.filterMap_eq_nil_iff.mpr fun d hd => (hnone d hd).2.1,
    List.filterMap_eq_nil_iff.mpr fun d hd => (hnone d hd).2.2⟩

/-! ## What a command does -/

def lastId (w : World) : ℕ := w.state.memory.bridge.lastNativeId

def Does (sent : List UInt8) (w u : World) : Prop :=
  ∃ new, u.trace = w.trace ++ new ∧ commands new = sent ∧ admissions new = [] ∧ lastId u = lastId w

theorem Does.refl (w : World) : Does [] w w := ⟨[], (List.append_nil _).symm, rfl, rfl, rfl⟩

theorem Does.trans {sent sent' : List UInt8} (h : Does sent w u) (h' : Does sent' u v) : Does (sent ++ sent') w v := by
  obtain ⟨x, htrace, hsent, hadmissions, hid⟩ := h
  obtain ⟨y, htrace', hsent', hadmissions', hid'⟩ := h'
  refine ⟨x ++ y, by rw [htrace', htrace, List.append_assoc], ?_, ?_, hid'.trans hid⟩
  · rw [commands_append, hsent, hsent']
  · rw [admissions_append, hadmissions, hadmissions']
    rfl

theorem Does.commands {sent : List UInt8} (h : Does sent w u) : commands u.trace = commands w.trace ++ sent := by
  obtain ⟨new, htrace, hsent, -⟩ := h
  rw [htrace, commands_append, hsent]

theorem Does.admissions {sent : List UInt8} (h : Does sent w u) : admissions u.trace = admissions w.trace := by
  obtain ⟨new, htrace, -, hadmissions, -⟩ := h
  rw [htrace, admissions_append, hadmissions, List.append_nil]

theorem Does.lastId {sent : List UInt8} (h : Does sent w u) : lastId u = lastId w := h.choose_spec.2.2.2

theorem Still.does (h : Still w u) : Does [] w u :=
  ⟨[], by rw [h.1, List.append_nil], rfl, rfl, by rw [Pcsx2Bridge.lastId, h.2]; rfl⟩

/-- The command was not sent, or it was and no receipt was accepted. -/
def Fell (opcode : UInt8) (w u : World) : Prop := ∃ sent, Does sent w u ∧ (sent = [] ∨ sent = [opcode])

theorem Still.fell {opcode : UInt8} (h : Still w u) : Fell opcode w u := ⟨[], h.does, .inl rfl⟩

theorem does_of_memory (htrace : u.trace = w.trace) (hid : lastId u = lastId w) : Does [] w u :=
  ⟨[], by rw [htrace, List.append_nil], rfl, rfl, hid⟩

theorem asks_remaining (deadline : ℕ) : Asks (remaining deadline) :=
  (asks_ask _).next fun _ => keeps_ite (asks_pure _) (asks_refuse _)

theorem boundedCommand_spec (opcode : UInt8) (body : List UInt8) (deadline cap : ℕ) (w : World) :
    wp (boundedCommand opcode body deadline cap)
      (fun reply u => lastId u = lastId w ∧ ∃ moves, Transfers moves ∧
        u.trace = w.trace ++ .requested opcode body :: (moves ++ [.replied opcode reply]))
      (fun _ u => Fell opcode w u) w := by
  rw [boundedCommand, wp_bind]
  refine wp_memoryNow ?_
  by_cases hterminal : backendTerminal w.state.memory = true
  · rw [if_pos hterminal]
    exact (Still.refl w).fell
  · rw [if_neg hterminal, wp_bind, onFailure, wp_bind]
    refine wp_mono (asks_outcome (asks_remaining _) w) ?_ fun e u hu => hu.1.fell
    intro left u hu
    cases left with
    | error e =>
      dsimp only
      rw [wp_bind]
      exact wp_remember (wp_refuse ⟨[], does_of_memory hu.1 (by rw [← hu.does.lastId]; rfl), .inl rfl⟩)
    | ok left =>
      refine wp_pure.mpr ?_
      rw [wp_bind]
      refine wp_mono (asks_ask _ u) (fun _ v hv => ?_) fun e v hv => (hu.trans hv).fell
      have hstill := hu.trans hv
      rw [wp_bind]
      refine wp_note ?_
      rw [wp_bind]
      have hfell : ∀ {x y : World}, Exchanged { v with trace := v.trace ++ [.requested opcode body] } x →
          x.trace = y.trace → lastId x = lastId y → Fell opcode w y := by
        rintro x y ⟨⟨moves, htrace, hmoves⟩, hbridge, -⟩ hsame hid
        refine ⟨[opcode], ⟨.requested opcode body :: moves, ?_, ?_, ?_, ?_⟩, .inr rfl⟩
        · rw [← hsame, htrace, hstill.1, List.append_assoc]
          rfl
        · show opcode :: commands moves = [opcode]
          rw [(@Transfers.silent 0 _ hmoves).1]
        · show admissions moves = []
          exact (@Transfers.silent 0 _ hmoves).2.1
        · rw [← hid, lastId, hbridge, ← hstill.does.lastId]
          rfl
      refine wp_outcome (wp_mono (transactWithTimeout_spec _ _ _) ?_ ?_)
      · rintro reply x ⟨hex, -⟩
        dsimp only
        rw [wp_bind]
        refine wp_mono (asks_outcome (asks_remaining _) x) ?_ fun e y hy => hfell hex hy.1.1.symm hy.1.does.lastId.symm
        intro within y hy
        cases within with
        | ok left =>
          dsimp only
          rw [wp_bind]
          refine wp_note ?_
          obtain ⟨⟨moves, htrace, hmoves⟩, hbridge, -⟩ := hex
          refine ⟨?_, moves, hmoves, ?_⟩
          · show lastId y = lastId w
            rw [hy.does.lastId, lastId, hbridge, ← hstill.does.lastId]
            rfl
          · show y.trace ++ [.replied opcode reply] = _
            rw [hy.1, htrace, hstill.1]
            simp only [List.append_assoc, List.cons_append, List.nil_append]
        | error e =>
          dsimp only
          rw [wp_bind]
          exact wp_remember (wp_refuse (hfell hex hy.1.symm hy.does.lastId.symm))
      · rintro e x ⟨hex, -⟩
        refine ⟨?_, fun _ => hfell hex rfl rfl⟩
        rintro error rfl
        dsimp only
        split
        · rw [wp_bind]
          exact wp_remember (wp_refuse (hfell hex rfl rfl))
        · exact wp_refuse (hfell hex rfl rfl)

/-! ## Chains -/

/-- The receipts of a call, the last of which is `r`. -/
structure Chain (requested : ℕ) (deeds : List Deed) (r : Receipt) : Prop where
  latest : ∃ before, receipts requested deeds = before ++ [r]
  ordered : (receipts requested deeds).Pairwise fun a b => b.Follows a
  consistent : ∀ q ∈ receipts requested deeds, q.Consistent requested
  heard : ∀ opcode reply, .replied opcode reply ∈ deeds → ∃ q, Receipt.parse reply requested = .ok q

theorem Chain.mem (h : Chain requested u.trace r) : r ∈ receipts requested u.trace := by
  obtain ⟨before, hlatest⟩ := h.latest
  rw [hlatest]
  exact List.mem_append_right _ (List.mem_singleton_self r)

theorem Chain.requested_eq (h : Chain requested u.trace r) : r.requested = requested := (h.consistent r h.mem).2.2.1

theorem Chain.follows {deeds : List Deed} (h : Chain requested deeds r) :
    ∀ q ∈ receipts requested deeds, r.Follows q := by
  obtain ⟨before, hlatest⟩ := h.latest
  have hordered := h.ordered
  rw [hlatest, List.pairwise_append] at hordered
  rw [hlatest]
  intro q hq
  rcases List.mem_append.mp hq with hq | hq
  · exact hordered.2.2 q hq r (List.mem_singleton_self r)
  · rw [List.mem_singleton.mp hq]
    exact .refl r

theorem receipts_command {opcode : UInt8} {body reply : List UInt8} {moves : List Deed} (hmoves : Transfers moves)
    (hparse : Receipt.parse reply requested = .ok next) :
    receipts requested (.requested opcode body :: (moves ++ [.replied opcode reply])) = [next] := by
  show receipts requested (moves ++ [.replied opcode reply]) = [next]
  rw [receipts_append, hmoves.silent.2.2]
  simp [receipts, Deed.receipt?, hparse, Except.toOption]

theorem mem_command {opcode opcode' : UInt8} {body reply reply' : List UInt8} {moves : List Deed}
    (hmoves : Transfers moves)
    (h : .replied opcode' reply' ∈ (.requested opcode body :: (moves ++ [.replied opcode reply]) : List Deed)) :
    reply' = reply := by
  simp only [List.mem_cons, List.mem_append, reduceCtorEq, false_or, Deed.replied.injEq,
    List.not_mem_nil, or_false] at h
  rcases h with h | h
  · exact (hmoves _ h).elim
  · exact h.2

theorem Chain.command {deeds moves : List Deed} {opcode : UInt8} {body reply : List UInt8} (h : Chain requested deeds r)
    (hmoves : Transfers moves) (hparse : Receipt.parse reply requested = .ok next) (hfollows : next.Follows r) :
    Chain requested (deeds ++ .requested opcode body :: (moves ++ [.replied opcode reply])) next := by
  have hnew := @receipts_command _ _ opcode body _ _ hmoves hparse
  refine ⟨⟨_, by rw [receipts_append, hnew]⟩, ?_, ?_, ?_⟩
  · rw [receipts_append, hnew, List.pairwise_append]
    refine ⟨h.ordered, List.pairwise_singleton _ _, fun q hq q' hq' => ?_⟩
    rw [List.mem_singleton.mp hq']
    exact (h.follows q hq).trans hfollows
  · rw [receipts_append, hnew]
    intro q hq
    rcases List.mem_append.mp hq with hq | hq
    · exact h.consistent q hq
    · rw [List.mem_singleton.mp hq]
      exact parse_consistent hparse
  · intro opcode' reply' hmem
    rcases List.mem_append.mp hmem with hmem | hmem
    · exact h.heard _ _ hmem
    · exact ⟨next, mem_command hmoves hmem ▸ hparse⟩

def Heard (requested : ℕ) (opcode : UInt8) (previous next : Receipt) (w u : World) : Prop :=
  Chain requested u.trace next ∧ next.Follows previous ∧ lastId u = lastId w ∧
    ∃ body after, u.trace = w.trace ++ .requested opcode body :: after ∧ commands after = [] ∧ admissions after = []

theorem Heard.does {opcode : UInt8} {previous : Receipt} (h : Heard requested opcode previous next w u) :
    Does [opcode] w u := by
  obtain ⟨-, -, hid, body, after, htrace, hcommands, hadmissions⟩ := h
  exact ⟨_, htrace, congrArg (List.cons opcode) hcommands, hadmissions, hid⟩

theorem receiptCommand_spec {previous : Receipt} {opcode : UInt8} {deadline : ℕ}
    (h : Chain requested w.trace previous) : wp (receiptCommand opcode previous deadline)
      (fun next u => Heard requested opcode previous next w u) (fun _ u => Fell opcode w u) w := by
  rw [receiptCommand, wp_bind, h.requested_eq]
  refine wp_mono (boundedCommand_spec _ _ _ _ w) ?_ fun _ _ hu => hu
  rintro reply u ⟨hid, moves, hmoves, htrace⟩
  have hsilent : commands (moves ++ [.replied opcode reply]) = [] ∧
      admissions (moves ++ [.replied opcode reply]) = [] := by
    obtain ⟨hcommands, hadmissions, -⟩ := @Transfers.silent 0 _ hmoves
    rw [commands_append, admissions_append, hcommands, hadmissions]
    exact ⟨rfl, rfl⟩
  have hfell : Fell opcode w u :=
    ⟨[opcode], ⟨_, htrace, congrArg (List.cons opcode) hsilent.1, hsilent.2, hid⟩, .inr rfl⟩
  rw [wp_bind]
  refine wp_orRefuse (fun next hnext => ?_) fun e _ => hfell
  split
  · next hfollows =>
    refine ⟨?_, hfollows, hid, _, _, htrace, hsilent.1, hsilent.2⟩
    rw [htrace]
    exact h.command hmoves hnext hfollows
  · exact hfell

/-! ## Releasing -/

def Polled (w u : World) : Prop := ∃ polls, Does polls w u ∧ ∀ opcode ∈ polls, opcode = Poll

theorem Still.polled (h : Still w u) : Polled w u := ⟨[], h.does, nofun⟩

theorem Polled.trans (h : Polled w u) (h' : Polled u v) : Polled w v := by
  obtain ⟨x, hx, hall⟩ := h
  obtain ⟨y, hy, hall'⟩ := h'
  exact ⟨x ++ y, hx.trans hy, fun opcode hmem => (List.mem_append.mp hmem).elim (hall opcode) (hall' opcode)⟩

theorem Fell.polled (h : Fell Poll w u) : Polled w u := by
  obtain ⟨sent, hsent, rfl | rfl⟩ := h
  · exact ⟨[], hsent, nofun⟩
  · exact ⟨_, hsent, fun opcode hmem => List.mem_singleton.mp hmem⟩

theorem Does.polled (h : Does [Poll] w u) : Polled w u := ⟨_, h, fun _ hmem => List.mem_singleton.mp hmem⟩

theorem awaitFinished_spec {deadline n : ℕ} (h : Chain requested w.trace r) :
    wp (awaitFinished deadline n r)
      (fun terminal u => Polled w u ∧ Chain requested u.trace terminal ∧ terminal.Follows r ∧ terminal.phase = 5)
      (fun _ u => Polled w u) w := by
  induction n generalizing w r with
  | zero => exact (Still.refl w).polled
  | succ n ih =>
    rw [awaitFinished, wp_bind]
    refine wp_mono (asks_remaining deadline w) ?_ fun _ _ hu => hu.polled
    intro _ u hu
    have hchain : Chain requested u.trace r := hu.1 ▸ h
    by_cases hdone : r.phase = 5
    · rw [if_pos hdone]
      exact ⟨hu.polled, hchain, .refl r, hdone⟩
    · rw [if_neg hdone]
      by_cases hfour : r.phase = 4
      · rw [if_neg (not_not_intro hfour), wp_bind]
        refine wp_mono (asks_remaining deadline u) ?_ fun _ _ hv => (hu.trans hv).polled
        intro _ v hv
        rw [wp_bind]
        have hchain' : Chain requested v.trace r := hv.1 ▸ hchain
        have hpolled := (hu.trans hv).polled
        refine wp_mono (receiptCommand_spec hchain') ?_ fun _ _ hx => hpolled.trans hx.polled
        intro next x hnext
        refine wp_mono (ih hnext.1) ?_ fun _ _ hy => (hpolled.trans hnext.does.polled).trans hy
        rintro terminal y ⟨hy, hchain'', hfollows, hphase⟩
        exact ⟨(hpolled.trans hnext.does.polled).trans hy, hchain'', hnext.2.1.trans hfollows, hphase⟩
      · rw [if_pos hfour]
        exact hu.polled

/-- The operation with the receipt `r` was released, and `terminal` confirms that. -/
def Finished (requested : ℕ) (r terminal : Receipt) (w u : World) : Prop :=
  Chain requested u.trace terminal ∧ r.phase = 3 ∧ terminal.phase = 5 ∧ terminal.Follows r ∧ lastId u = lastId w ∧
    ∃ body after, u.trace = w.trace ++ .requested Finish body :: after ∧ (∀ opcode ∈ commands after, opcode = Poll) ∧
      admissions after = []

/-- What is sent for a release that is not confirmed. -/
def Unfinished (w u : World) : Prop :=
  ∃ sent, Does sent w u ∧ (sent = [] ∨ ∃ polls, sent = Finish :: polls ∧ ∀ opcode ∈ polls, opcode = Poll)

theorem finishNative_spec {deadline : ℕ} (h : Chain requested w.trace r) :
    wp (finishNative r deadline) (fun terminal u => Finished requested r terminal w u)
      (fun _ u => Unfinished w u) w := by
  rw [finishNative]
  by_cases hthree : r.phase = 3
  · rw [if_neg (not_not_intro hthree), wp_bind]
    refine wp_mono (receiptCommand_spec h) ?_ ?_
    · intro next u hnext
      have hsent := hnext.does
      obtain ⟨hchain, hfollows, hid, body, after, htrace, hcommands, hadmissions⟩ := hnext
      rw [wp_bind]
      refine wp_mono (asks_rounds u) ?_ fun _ _ hv => ⟨[Finish], hsent.trans hv.does, .inr ⟨[], rfl, nofun⟩⟩
      intro n v hv
      refine wp_mono (awaitFinished_spec (hv.1 ▸ hchain)) ?_ ?_
      · rintro terminal x ⟨hpolled, hchain', hfollows', hphase⟩
        obtain ⟨polls, ⟨new, htrace', hpolls, hadmissions', hid'⟩, hall⟩ := hv.polled.trans hpolled
        refine ⟨hchain', hthree, hphase, hfollows.trans hfollows', hid'.trans hid, body, after ++ new, ?_, ?_, ?_⟩
        · rw [htrace', htrace, List.append_assoc, List.cons_append]
        · rw [commands_append, hcommands, hpolls, List.nil_append]
          exact hall
        · rw [admissions_append, hadmissions, hadmissions']
          rfl
      · intro e x hx
        obtain ⟨polls, hdoes, hall⟩ := hv.polled.trans hx
        exact ⟨Finish :: polls, hsent.trans hdoes, .inr ⟨polls, rfl, hall⟩⟩
    · rintro e u ⟨sent, hsent, rfl | rfl⟩
      · exact ⟨[], hsent, .inl rfl⟩
      · exact ⟨_, hsent, .inr ⟨[], rfl, nofun⟩⟩
  · rw [if_pos hthree]
    exact ⟨[], .refl w, .inl rfl⟩

/-! ## Admission -/

theorem admitNative_spec {opcode : UInt8} {body : List UInt8} {deadline : ℕ} (hw : w.trace = []) :
    wp (admitNative opcode body requested deadline)
      (fun r u => Chain requested u.trace r ∧ commands u.trace = [opcode] ∧ admissions u.trace = [r.id] ∧
        lastId w < r.id ∧ lastId u = r.id) (fun _ u => Fell opcode w u) w := by
  rw [admitNative, wp_bind]
  refine wp_mono (boundedCommand_spec _ _ _ _ w) ?_ fun _ _ hu => hu
  rintro reply u ⟨hid, moves, hmoves, htrace⟩
  obtain ⟨hcommands, hadmissions, -⟩ := @Transfers.silent 0 _ hmoves
  have hfell : Fell opcode w u := by
    refine ⟨[opcode], ⟨_, htrace, ?_, ?_, hid⟩, .inr rfl⟩
    · show opcode :: commands (moves ++ [.replied opcode reply]) = [opcode]
      rw [commands_append, hcommands]
      rfl
    · show admissions (moves ++ [.replied opcode reply]) = []
      rw [admissions_append, hadmissions]
      rfl
  rw [hw, List.nil_append] at htrace
  rw [wp_bind]
  refine wp_orRefuse (fun r hparse => ?_) fun e _ => hfell
  rw [wp_bind]
  refine wp_memoryNow ?_
  dsimp only
  split
  · exact hfell
  · next hnew =>
    rw [not_or] at hnew
    rw [wp_bind]
    refine wp_remember ?_
    rw [wp_bind]
    refine wp_note ?_
    have hreceipts := @receipts_command _ _ opcode body _ _ hmoves hparse
    refine ⟨⟨⟨[], ?_⟩, ?_, ?_, ?_⟩, ?_, ?_, ?_, rfl⟩
    · show receipts requested (u.trace ++ [.admitted r.id]) = [r]
      rw [htrace, receipts_append, hreceipts]
      rfl
    · show (receipts requested (u.trace ++ [.admitted r.id])).Pairwise _
      rw [htrace, receipts_append, hreceipts]
      exact List.pairwise_singleton _ _
    · show ∀ q ∈ receipts requested (u.trace ++ [.admitted r.id]), q.Consistent requested
      rw [htrace, receipts_append, hreceipts]
      intro q hq
      rw [show q = r from List.mem_singleton.mp hq]
      exact parse_consistent hparse
    · intro opcode' reply' hmem
      replace hmem : .replied opcode' reply' ∈ u.trace ++ [.admitted r.id] := hmem
      rw [htrace] at hmem
      rcases List.mem_append.mp hmem with hmem | hmem
      · exact ⟨r, mem_command hmoves hmem ▸ hparse⟩
      · cases List.mem_singleton.mp hmem
    · show commands (u.trace ++ [.admitted r.id]) = [opcode]
      rw [htrace]
      show opcode :: commands ((moves ++ [.replied opcode reply]) ++ [.admitted r.id]) = [opcode]
      rw [commands_append, commands_append, hcommands]
      rfl
    · show admissions (u.trace ++ [.admitted r.id]) = [r.id]
      rw [htrace]
      show admissions ((moves ++ [.replied opcode reply]) ++ [.admitted r.id]) = [r.id]
      rw [admissions_append, admissions_append, hadmissions]
      rfl
    · have hlast : lastId u < r.id := Nat.lt_of_not_le hnew.1
      omega

end Emucap.Pcsx2Bridge
