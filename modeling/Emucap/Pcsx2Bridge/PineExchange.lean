import Emucap.Pcsx2Bridge.PineSocket

/-!
# One exchange on the PINE socket

What moves bytes leaves the memory as it is (`Moved`). An exchange whose failure may have broken the stream leaves the
socket terminal (`transactWithTimeout_spec`), and on a terminal socket nothing moves.
-/

namespace Emucap.Pcsx2Bridge

open Emucap.Lib

variable {w u v : World}

/-! ## Moving bytes -/

def Deed.IsTransfer : Deed → Prop
  | .wrote _ | .read _ => True
  | _ => False

def Transfers (deeds : List Deed) : Prop := ∀ d ∈ deeds, d.IsTransfer

theorem transfers_nil : Transfers [] := fun _ h => absurd h List.not_mem_nil

theorem Transfers.append {a b : List Deed} (ha : Transfers a) (hb : Transfers b) : Transfers (a ++ b) :=
  fun d hd => (List.mem_append.mp hd).elim (ha d) (hb d)

def Moved (w u : World) : Prop :=
  ∃ new, u.trace = w.trace ++ new ∧ Transfers new ∧ u.state.memory = w.state.memory

theorem Moved.trans (h : Moved w u) (h' : Moved u v) : Moved w v := by
  obtain ⟨a, htrace, ha, hmemory⟩ := h
  obtain ⟨b, htrace', hb, hmemory'⟩ := h'
  exact ⟨a ++ b, by rw [htrace', htrace, List.append_assoc], ha.append hb, hmemory'.trans hmemory⟩

def Still (w u : World) : Prop := u.trace = w.trace ∧ u.state.memory = w.state.memory

theorem Still.refl (w : World) : Still w w := ⟨rfl, rfl⟩

theorem Still.trans (h : Still w u) (h' : Still u v) : Still w v := ⟨h'.1.trans h.1, h'.2.trans h.2⟩

theorem Still.moved (h : Still w u) : Moved w u := ⟨[], by rw [h.1, List.append_nil], transfers_nil, h.2⟩

section moves
variable {α β : Type}

/-- What only asks. -/
abbrev Asks (x : Pine α) : Prop := Keeps Still x

/-- What moves bytes at most. -/
abbrev Moves (x : Pine α) : Prop := Keeps Moved x

theorem Asks.next {x : Pine α} {f : α → Pine β} (hx : Asks x) (hf : ∀ a, Asks (f a)) : Asks (x >>= f) :=
  hx.bind hf Still.trans

theorem Asks.moves {x : Pine α} (hx : Asks x) : Moves x := hx.mono Still.moved

theorem Moves.next {x : Pine α} {f : α → Pine β} (hx : Moves x) (hf : ∀ a, Moves (f a)) : Moves (x >>= f) :=
  hx.bind hf Moved.trans

theorem asks_pure (a : α) : Asks (pure a) := fun w => .refl w

theorem asks_refuse (e : Pcsx2BridgeError) : Asks (refuse e : Pine α) := fun w => .refl w

theorem asks_ask (read : Answer → Option α) : Asks (ask read) := fun _ =>
  wp_ask_memory (fun _ _ htrace hmemory => ⟨htrace, hmemory⟩) fun _ htrace hmemory => ⟨htrace, hmemory⟩

theorem asks_orIo (r : Except IoError α) : Asks (orIo r) := by
  cases r with
  | ok a => exact asks_pure a
  | error e => exact asks_refuse _

theorem asks_memoryNow : Asks memoryNow := fun w => .refl w

theorem keeps_ite {R : World → World → Prop} {c : Prop} [Decidable c] {x y : Pine α} (hx : Keeps R x) (hy : Keeps R y) :
    Keeps R (if c then x else y) := by
  split
  · exact hx
  · exact hy

theorem asks_remainingBudget : Asks remainingBudget := by
  refine (asks_memoryNow).next fun memory => ?_
  cases memory.socket.ioDeadline with
  | none => exact asks_pure ()
  | some deadline => exact (asks_ask _).next fun now => keeps_ite (asks_pure ()) (asks_refuse _)

theorem asks_restoreTimeouts : Asks restoreTimeouts := (asks_ask _).next asks_orIo

theorem asks_prepareIo : Asks prepareIo :=
  (asks_remainingBudget).next fun _ => (asks_memoryNow).next fun _ =>
    keeps_ite ((asks_ask _).next asks_orIo) (asks_pure ())

theorem asks_outcome {x : Pine α} (hx : Asks x) (w : World) :
    wp (outcome x) (fun _ => Still w) (fun e u => Still w u ∧ ∀ error, e ≠ .failed error) w :=
  wp_outcome (wp_mono (hx w) (fun _ _ hu => hu) fun _ _ hu => ⟨fun _ _ => hu, fun hne => ⟨hu, hne⟩⟩)

theorem asks_rounds : Asks rounds := fun w => .refl w

theorem asks_stuck : Asks (throw .unfinished : Pine α) := fun w => .refl w

theorem moves_note {d : Deed} (h : d.IsTransfer) : Moves (note d) := fun _ =>
  ⟨[d], rfl, fun _ hd => (List.mem_singleton.mp hd) ▸ h, rfl⟩

theorem moves_readLoop : ∀ (n : ℕ) (got : List UInt8) (missing : ℕ), Moves (readLoop n got missing)
  | 0, _, _ => (asks_stuck).moves
  | n + 1, got, missing => by
    rw [readLoop]
    refine keeps_ite (asks_pure got).moves ((asks_prepareIo).moves.next fun _ => (asks_ask _).moves.next fun r => ?_)
    cases r with
    | ok bytes =>
      exact keeps_ite (asks_refuse _).moves
        ((moves_note (d := .read _) trivial).next fun _ => moves_readLoop n _ _)
    | error e => exact keeps_ite (moves_readLoop n got missing) (asks_refuse _).moves

theorem moves_readPacketBytes (count : ℕ) : Moves (readPacketBytes count) :=
  (asks_rounds).moves.next fun n => moves_readLoop n [] count

theorem moves_writeLoop : ∀ (n : ℕ) (bytes : List UInt8), Moves (writeLoop n bytes)
  | 0, _ => (asks_stuck).moves
  | n + 1, bytes => by
    rw [writeLoop]
    refine keeps_ite (asks_pure ()).moves ((asks_prepareIo).moves.next fun _ => (asks_ask _).moves.next fun r => ?_)
    cases r with
    | ok count =>
      exact keeps_ite (asks_refuse _).moves
        ((moves_note (d := .wrote _) trivial).next fun _ => moves_writeLoop n _)
    | error e => exact keeps_ite (moves_writeLoop n bytes) (asks_refuse _).moves

theorem moves_writePacketBytes (bytes : List UInt8) : Moves (writePacketBytes bytes) :=
  (asks_rounds).moves.next fun n => moves_writeLoop n bytes

theorem moves_exchangePacket (request : List UInt8) : Moves (exchangePacket request) := by
  refine keeps_ite ?_ (asks_refuse _).moves
  refine (moves_writePacketBytes _).next fun _ => (asks_ask _).moves.next fun r => (asks_orIo r).moves.next fun _ =>
    (moves_readPacketBytes 5).next fun header => keeps_ite ?_ (asks_refuse _).moves
  exact (moves_readPacketBytes _).next fun payload => keeps_ite (asks_pure payload).moves (asks_refuse _).moves

end moves

/-! ## Exchanges -/

/-- What an exchange does: it moves bytes, unless the socket is terminal. -/
structure Exchanged (w u : World) : Prop where
  trace : ∃ new, u.trace = w.trace ++ new ∧ Transfers new
  bridge : u.state.memory.bridge = w.state.memory.bridge
  fenced : w.state.memory.socket.terminal = true → u.trace = w.trace ∧ u.state.memory.socket.terminal = true

theorem Exchanged.refl (w : World) : Exchanged w w :=
  ⟨⟨[], (List.append_nil _).symm, transfers_nil⟩, rfl, fun h => ⟨rfl, h⟩⟩

theorem Exchanged.trans (h : Exchanged w u) (h' : Exchanged u v) : Exchanged w v := by
  obtain ⟨⟨a, ha, hta⟩, hbridge, hfenced⟩ := h
  obtain ⟨⟨b, hb, htb⟩, hbridge', hfenced'⟩ := h'
  refine ⟨⟨a ++ b, by rw [hb, ha, List.append_assoc], hta.append htb⟩, hbridge'.trans hbridge, fun hterminal => ?_⟩
  obtain ⟨htrace, hstill⟩ := hfenced hterminal
  obtain ⟨htrace', hstill'⟩ := hfenced' hstill
  exact ⟨htrace'.trans htrace, hstill'⟩

theorem Moved.exchanged (h : Moved w u) (hopen : w.state.memory.socket.terminal = false) : Exchanged w u := by
  obtain ⟨new, htrace, hnew, hmemory⟩ := h
  refine ⟨⟨new, htrace, hnew⟩, by rw [hmemory], fun hterminal => ?_⟩
  rw [hopen] at hterminal
  cases hterminal

theorem exchanged_of_trace (htrace : u.trace = w.trace) (hbridge : u.state.memory.bridge = w.state.memory.bridge)
    (hterminal : w.state.memory.socket.terminal = true → u.state.memory.socket.terminal = true) : Exchanged w u :=
  ⟨⟨[], by rw [htrace, List.append_nil], transfers_nil⟩, hbridge, fun h => ⟨htrace, hterminal h⟩⟩

theorem Still.exchanged (h : Still w u) : Exchanged w u :=
  exchanged_of_trace h.1 (by rw [h.2]) (by rw [h.2]; exact fun h => h)

def Sound (r : Except Pcsx2BridgeError (List UInt8)) (w u : World) : Prop :=
  (∀ reply, r = .ok reply → w.state.memory.socket.terminal = false ∧ u.state.memory.socket.terminal = false) ∧
    ∀ e, r = .error e → e.breaksStream → u.state.memory.socket.terminal = true

theorem transact_spec (request : List UInt8) (w : World) :
    wp (transact request) (fun reply u => Exchanged w u ∧ Sound (.ok reply) w u)
      (fun e u => Exchanged w u ∧ ∀ error, e = .failed error → Sound (.error error) w u) w := by
  rw [transact, wp_bind]
  refine wp_memoryNow ?_
  by_cases hterminal : w.state.memory.socket.terminal = true
  · rw [if_pos hterminal]
    exact ⟨.refl w, fun error he => ⟨nofun, fun e h _ => hterminal⟩⟩
  · rw [Bool.not_eq_true] at hterminal
    rw [hterminal, if_neg Bool.false_ne_true, wp_bind]
    refine wp_outcome (wp_mono (moves_exchangePacket request w) (fun payload u hu => ?_) (fun e u hu => ⟨?_, ?_⟩))
    · refine ⟨hu.exchanged hterminal, fun _ _ => ⟨hterminal, ?_⟩, nofun⟩
      rw [hu.choose_spec.2.2]
      exact hterminal
    · rintro error rfl
      obtain ⟨htrace, hbridge, hfenced⟩ := hu.exchanged hterminal
      dsimp only
      by_cases hbreaks : error.breaksStream = true
      · rw [if_pos hbreaks, wp_bind]
        exact wp_remember (wp_refuse ⟨⟨htrace, hbridge, fun h => ⟨(hfenced h).1, rfl⟩⟩, fun _ _ =>
          ⟨nofun, fun _ _ _ => rfl⟩⟩)
      · rw [if_neg hbreaks]
        refine wp_refuse ⟨⟨htrace, hbridge, hfenced⟩, fun error' he => ⟨nofun, fun e h hb => ?_⟩⟩
        cases he
        cases h
        exact absurd hb hbreaks
    · exact fun he => ⟨hu.exchanged hterminal, fun error h => absurd h (he error)⟩

theorem settleExchange_spec {reply : Except Pcsx2BridgeError (List UInt8)} (hex : Exchanged w u)
    (hsound : Sound reply w u) : wp (settleExchange reply)
      (fun _ v => Exchanged w v ∧ w.state.memory.socket.terminal = false ∧ v.state.memory.socket.terminal = false)
      (fun e v => Exchanged w v ∧ ∀ error, e = .failed error → error.breaksStream →
        v.state.memory.socket.terminal = true) u := by
  have hlater : ∀ {v : World}, v.trace = u.trace → v.state.memory.bridge = u.state.memory.bridge →
      (u.state.memory.socket.terminal = true → v.state.memory.socket.terminal = true) → Exchanged w v :=
    fun htrace hbridge hterminal => hex.trans (exchanged_of_trace htrace hbridge hterminal)
  rw [settleExchange, wp_bind]
  refine wp_mono (asks_outcome asks_remainingBudget u) ?_ fun e v hv => ⟨hex.trans hv.1.exchanged, ?_⟩
  · intro withinDeadline v hv
    rw [wp_bind]
    refine wp_remember ?_
    rw [wp_bind]
    refine wp_mono (asks_outcome asks_restoreTimeouts _) ?_ fun e x hx => ⟨hlater ?_ ?_ ?_, ?_⟩
    · rintro restored x ⟨htrace, hmemory⟩
      have htrace' : x.trace = u.trace := htrace.trans hv.1
      have hbridge : x.state.memory.bridge = u.state.memory.bridge := by rw [hmemory, ← hv.2]; rfl
      have hterminal : x.state.memory.socket.terminal = u.state.memory.socket.terminal := by rw [hmemory, ← hv.2]; rfl
      by_cases hdoubt : failed withinDeadline = true ∨ failed restored = true
      · rw [if_pos hdoubt, wp_bind]
        refine wp_remember ?_
        have hend : ∀ {x' : World}, x' = { x with state := { x.state with memory := setTerminal x.state.memory } } →
            Exchanged w x' ∧ x'.state.memory.socket.terminal = true := by
          rintro _ rfl
          exact ⟨hlater htrace' hbridge fun _ => rfl, rfl⟩
        rw [wp_bind]
        refine wp_orRefuse (fun _ hrestored => ?_) (fun e _ => ⟨(hend rfl).1, fun _ _ _ => rfl⟩)
        rw [wp_bind]
        refine wp_orRefuse (fun _ hwithin => ?_) (fun e _ => ⟨(hend rfl).1, fun _ _ _ => rfl⟩)
        rw [hrestored, hwithin] at hdoubt
        simp [failed] at hdoubt
      · rw [if_neg hdoubt]
        have hex' : Exchanged w x := hlater htrace' hbridge fun h => hterminal.trans h
        cases restored with
        | error e => exact absurd (.inr rfl) hdoubt
        | ok _ =>
          cases withinDeadline with
          | error e => exact absurd (.inl rfl) hdoubt
          | ok _ =>
            show wp (orRefuse reply) _ _ x
            refine wp_orRefuse (fun reply hreply => ⟨hex', ?_⟩) (fun e he => ⟨hex', ?_⟩)
            · obtain ⟨hopen, hopen'⟩ := hsound.1 reply hreply
              exact ⟨hopen, hterminal.trans hopen'⟩
            · intro error h hbreaks
              cases h
              exact hterminal.trans (hsound.2 e he hbreaks)
    · exact hx.1.1.trans hv.1
    · rw [hx.1.2, ← hv.2]
      rfl
    · rw [hx.1.2, ← hv.2]
      exact fun h => h
    · exact fun error he => absurd he (hx.2 error)
  · exact fun error he => absurd he (hv.2 error)

/-- An exchange that fails in a way that may have broken the stream, after something went over it, leaves the socket
terminal. -/
theorem transactWithTimeout_spec (request : List UInt8) (timeout : ℕ) (w : World) :
    wp (transactWithTimeout request timeout)
      (fun _ u => Exchanged w u ∧ w.state.memory.socket.terminal = false ∧ u.state.memory.socket.terminal = false)
      (fun e u => Exchanged w u ∧ ∀ error, e = .failed error → error.breaksStream → u.trace ≠ w.trace →
        u.state.memory.socket.terminal = true) w := by
  have hstill : ∀ {u : World}, Still w u → ∀ {e : Halt Pcsx2BridgeError},
      Exchanged w u ∧ ∀ error, e = .failed error → error.breaksStream → u.trace ≠ w.trace →
        u.state.memory.socket.terminal = true :=
    fun hu => ⟨hu.exchanged, fun _ _ _ hne => absurd hu.1 hne⟩
  rw [transactWithTimeout, wp_bind]
  refine wp_mono (asks_ask _ w) (fun now u hu => ?_) (fun e u hu => hstill hu)
  by_cases hzero : timeout = 0
  · rw [if_pos hzero]
    exact hstill hu
  · rw [if_neg hzero, wp_bind]
    refine wp_mono (asks_ask _ u) (fun result v hv => ?_) (fun e v hv => hstill (hu.trans hv))
    rw [wp_bind]
    refine wp_mono (asks_orIo result v) (fun _ x hx => ?_) (fun e x hx => hstill (hu.trans (hv.trans hx)))
    have hstart := hu.trans (hv.trans hx)
    rw [wp_bind]
    refine wp_remember ?_
    have hbegun : Exchanged w { x with state := { x.state with
        memory := setDeadline (some (now + timeout)) x.state.memory } } := by
      refine exchanged_of_trace hstart.1 ?_ ?_
      · rw [← hstart.2]
        rfl
      · rw [← hstart.2]
        exact fun h => h
    have hopen : w.state.memory.socket.terminal =
        (setDeadline (some (now + timeout)) x.state.memory).socket.terminal := by
      rw [← hstart.2]
      rfl
    have hsettle : ∀ {reply y}, Exchanged w y → Sound reply w y → wp (settleExchange reply)
        (fun _ u => Exchanged w u ∧ w.state.memory.socket.terminal = false ∧ u.state.memory.socket.terminal = false)
        (fun e u => Exchanged w u ∧ ∀ error, e = .failed error → error.breaksStream → u.trace ≠ w.trace →
          u.state.memory.socket.terminal = true) y := fun hex hsound =>
      wp_mono (settleExchange_spec hex hsound) (fun _ _ h => h) fun _ _ h =>
        ⟨h.1, fun error he hbreaks _ => h.2 error he hbreaks⟩
    rw [wp_bind]
    refine wp_outcome (wp_mono (transact_spec request _) ?_ ?_)
    · rintro reply y ⟨hex, hsound⟩
      refine hsettle (hbegun.trans hex) ⟨fun r hr => ?_, hsound.2⟩
      obtain ⟨hbefore, hafter⟩ := hsound.1 r hr
      exact ⟨hopen.trans hbefore, hafter⟩
    · rintro e y ⟨hex, hsound⟩
      refine ⟨fun error he => hsettle (hbegun.trans hex) ⟨nofun, (hsound error he).2⟩, fun hne => ?_⟩
      exact ⟨hbegun.trans hex, fun error he => absurd he (hne error)⟩

end Emucap.Pcsx2Bridge
