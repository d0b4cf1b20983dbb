import Emucap.Qmp.Client

/-!
# One exchange

How the parts of an exchange end. Writing and reading move bytes and nothing else (`Went`), or they fail (`Failed`):
the client is then poisoned, unless it was a socket option that failed. A failed option is the last thing that a call
does.
-/

namespace Emucap.Qmp

open Emucap.Lib

variable {t : Texts} {w u v : World} {e : Stop}

/-! ## What moves bytes -/

def Deed.IsTransfer : Deed → Prop
  | .wrote _ => True
  | .arrived _ => True
  | _ => False

def Transfers (deeds : List Deed) : Prop := ∀ d ∈ deeds, d.IsTransfer

theorem Transfers.append {a b : List Deed} (ha : Transfers a) (hb : Transfers b) : Transfers (a ++ b) :=
  fun d hd => (List.mem_append.mp hd).elim (ha d) (hb d)

theorem transfers_nil : Transfers [] := fun _ h => absurd h List.not_mem_nil

/-- Nothing but the stream and the deeds has changed. -/
structure Step (w u : World) (new : List Deed) : Prop where
  events : u.events = w.events
  eventBytes : u.eventBytes = w.eventBytes
  nextId : u.nextId = w.nextId
  deeds : u.deeds = w.deeds ++ new

theorem Step.refl (w : World) : Step w w [] := ⟨rfl, rfl, rfl, (List.append_nil _).symm⟩

theorem Step.trans {a b : List Deed} (h : Step w u a) (h' : Step u v b) : Step w v (a ++ b) :=
  ⟨h'.events.trans h.events, h'.eventBytes.trans h.eventBytes, h'.nextId.trans h.nextId,
    by rw [h'.deeds, h.deeds, List.append_assoc]⟩

def Went (w u : World) : Prop := ∃ new, Step w u new ∧ Transfers new ∧ u.poisoned = w.poisoned

theorem Went.refl (w : World) : Went w w := ⟨[], .refl w, transfers_nil, rfl⟩

theorem Went.trans (h : Went w u) (h' : Went u v) : Went w v := by
  obtain ⟨a, hstep, ha, hsame⟩ := h
  obtain ⟨b, hstep', hb, hsame'⟩ := h'
  exact ⟨a ++ b, hstep.trans hstep', ha.append hb, hsame'.trans hsame⟩

/-- How a part of an exchange can fail. -/
inductive Failed (w : World) : Stop → World → Prop
  | poisoned {error : QmpError} {u : World} {new : List Deed} : Step w u new → Transfers new → u.poisoned = true →
      (∀ errorClass description, error ≠ .emulator errorClass description) → Failed w (.failed error) u
  | option {kind : IoKind} {u : World} {new : List Deed} : Step w u (new ++ [.optionFailed]) → Transfers new →
      u.poisoned = w.poisoned → Failed w (.failed (.io kind)) u
  | cut {e : Stop} {u : World} : Went w u → (∀ error, e ≠ .failed error) → Failed w e u

theorem Failed.after (hw : Went w u) (h : Failed u e v) : Failed w e v := by
  obtain ⟨new, hstep, htransfers, hsame⟩ := hw
  cases h with
  | poisoned hstep' htransfers' hpoisoned herror =>
    exact .poisoned (hstep.trans hstep') (htransfers.append htransfers') hpoisoned herror
  | option hstep' htransfers' hsame' =>
    refine .option ?_ (htransfers.append htransfers') (hsame'.trans hsame)
    rw [List.append_assoc]
    exact hstep.trans hstep'
  | cut hwent herror => exact .cut (.trans ⟨new, hstep, htransfers, hsame⟩ hwent) herror

def Moves {α : Type} (x : Exchange α) : Prop := ∀ w, wp x (fun _ => Went w) (Failed w) w

theorem Moves.bind {α β : Type} {x : Exchange α} {f : α → Exchange β} (hx : Moves x) (hf : ∀ a, Moves (f a)) :
    Moves (x >>= f) := by
  intro w
  rw [wp_bind]
  refine wp_mono (hx w) (fun a u hu => ?_) (fun _ _ h => h)
  exact wp_mono (hf a u) (fun _ _ hv => hu.trans hv) (fun _ _ hv => hv.after hu)

theorem moves_pure {α : Type} (a : α) : Moves (pure a : Exchange α) := fun w => .refl w

theorem moves_note {d : Deed} (h : d.IsTransfer) : Moves (note d) := fun _ =>
  ⟨[d], ⟨rfl, rfl, rfl, rfl⟩, fun _ hd => (List.mem_singleton.mp hd) ▸ h, rfl⟩

theorem moves_poison {α : Type} {error : QmpError}
    (h : ∀ errorClass description, error ≠ .emulator errorClass description) : Moves (poison error : Exchange α) :=
  fun w => .poisoned (show Step w _ [] from ⟨rfl, rfl, rfl, (List.append_nil _).symm⟩) transfers_nil rfl h

theorem Moves.go {α β : Type} {x : Exchange α} {f : α → Exchange β} {Q : β → World → Prop} (hx : Moves x)
    (hu : Went w u) (hf : ∀ a v, Went w v → wp (f a) Q (Failed w) v) : wp (x >>= f) Q (Failed w) u := by
  rw [wp_bind]
  exact wp_mono (hx u) (fun a v hv => hf a v (hu.trans hv)) (fun _ _ hv => hv.after hu)

def Still (w u : World) : Prop := Step w u [] ∧ u.poisoned = w.poisoned

theorem Still.refl (w : World) : Still w w := ⟨.refl w, rfl⟩

theorem Still.went (h : Still w u) : Went w u := ⟨[], h.1, transfers_nil, h.2⟩

/-- What asks the clock or the socket, and does nothing with the bytes. -/
def Asks {α : Type} (x : Exchange α) : Prop := ∀ w, wp x (fun _ => Still w) (Failed w) w

theorem Asks.moves {α : Type} {x : Exchange α} (hx : Asks x) : Moves x := fun w =>
  wp_mono (hx w) (fun _ _ h => h.went) (fun _ _ h => h)

theorem Asks.go {α β : Type} {x : Exchange α} {f : α → Exchange β} {Q : β → World → Prop} (hx : Asks x)
    (hu : Still w u) (hf : ∀ a v, Still w v → wp (f a) Q (Failed w) v) : wp (x >>= f) Q (Failed w) u := by
  rw [wp_bind]
  refine wp_mono (hx u) ?_ (fun _ _ hv => hv.after hu.went)
  rintro a v ⟨hstep, hsame⟩
  exact hf a v ⟨hu.1.trans hstep, hsame.trans hu.2⟩

theorem asks_next {α : Type} (read : Happening → Option α) : Asks (next read) := by
  intro w
  unfold wp next
  cases w.happenings with
  | nil => exact .cut (.refl w) nofun
  | cons h rest =>
    dsimp only
    cases read h with
    | none => exact .cut (.refl w) nofun
    | some a => exact ⟨⟨rfl, rfl, rfl, (List.append_nil _).symm⟩, rfl⟩

theorem poison_failed {α : Type} {error : QmpError} {Q : α → World → Prop}
    (h : ∀ errorClass description, error ≠ .emulator errorClass description) (hu : Went w u) :
    wp (poison error : Exchange α) Q (Failed w) u :=
  Failed.after hu (moves_poison (α := α) h u)

theorem asks_remaining : Asks remaining := by
  intro w
  refine (asks_next Happening.clock?).go (.refl w) fun expired u hu => ?_
  cases expired with
  | true => exact poison_failed nofun hu.went
  | false => exact hu

theorem asks_setTimeout : Asks setTimeout := by
  intro w
  refine (asks_next Happening.option?).go (.refl w) fun error u hu => ?_
  cases error with
  | none => exact hu
  | some kind =>
    have hfailed : Step u { u with deeds := u.deeds ++ [.optionFailed] } ([] ++ [.optionFailed]) := ⟨rfl, rfl, rfl, rfl⟩
    exact Failed.after hu.went (.option hfailed transfers_nil rfl)

/-! ## Writing -/

/-- A written text: the parts that the socket took, one after another. -/
def Written (w u : World) (bytes : List UInt8) : Prop :=
  ∃ parts : List (List UInt8), parts.flatten = bytes ∧ Step w u (parts.map .wrote) ∧ u.poisoned = w.poisoned

theorem transfers_wrote (parts : List (List UInt8)) : Transfers (parts.map .wrote) := by
  intro d hd
  obtain ⟨part, -, rfl⟩ := List.mem_map.mp hd
  exact trivial

theorem writeLoop_spec {rounds : ℕ} {bytes : List UInt8} (hrounds : bytes.length ≤ rounds) (w : World) :
    wp (writeLoop rounds bytes) (fun _ u => Written w u bytes) (Failed w) w := by
  induction rounds generalizing bytes w with
  | zero =>
    have hnil : bytes = [] := List.length_eq_zero_iff.mp (Nat.le_zero.mp hrounds)
    exact ⟨[], hnil.symm, .refl w, rfl⟩
  | succ rounds ih =>
    rw [writeLoop]
    by_cases hnil : bytes = []
    · rw [if_pos hnil]
      exact ⟨[], hnil.symm, .refl w, rfl⟩
    · rw [if_neg hnil]
      refine (asks_remaining).go (.refl w) fun _ u₁ hu₁ => (asks_setTimeout).go hu₁ fun _ u₂ hu₂ =>
        (asks_next Happening.write?).go hu₂ fun result u ⟨hstep, hsame⟩ => ?_
      have hwent : Went w u := ⟨[], hstep, transfers_nil, hsame⟩
      rcases result with kind | _ | count
      · exact poison_failed nofun hwent
      · exact poison_failed nofun hwent
      · rw [wp_bind]
        have hlength : (bytes.drop (count + 1)).length ≤ rounds := by
          rw [List.length_drop]
          omega
        have hnoted : Step u { u with deeds := u.deeds ++ [.wrote (bytes.take (count + 1))] }
            [.wrote (bytes.take (count + 1))] := ⟨rfl, rfl, rfl, rfl⟩
        show wp (writeLoop rounds (bytes.drop (count + 1))) _ _
          { u with deeds := u.deeds ++ [.wrote (bytes.take (count + 1))] }
        refine wp_mono (ih hlength { u with deeds := u.deeds ++ [.wrote (bytes.take (count + 1))] }) ?_ ?_
        · rintro _ v ⟨parts, hflatten, hparts, hsame'⟩
          refine ⟨bytes.take (count + 1) :: parts, ?_, ?_, hsame'.trans hsame⟩
          · rw [List.flatten_cons, hflatten, List.take_append_drop]
          · exact (hstep.trans hnoted).trans hparts
        · intro e v hv
          exact hv.after (hwent.trans ⟨_, hnoted, by simp [Transfers, Deed.IsTransfer], rfl⟩)

theorem writeValue_spec (value : Json) (w : World) :
    wp (writeValue t value) (fun _ u => Written w u (lineOf t value)) (Failed w) w :=
  writeLoop_spec le_rfl w

/-! ## Reading -/

theorem moves_readChunkFrom (reader : Live.Reader) : Moves (readChunkFrom t reader) :=
  fun _ => ⟨[], ⟨rfl, rfl, rfl, (List.append_nil _).symm⟩, transfers_nil, rfl⟩

theorem moves_readNdjsonChunk : Moves (readNdjsonChunk t) := by
  intro w
  rw [readNdjsonChunk, wp_bind, wp_get]
  split
  · exact moves_readChunkFrom _ w
  · refine Moves.bind (asks_next _).moves (fun read => ?_) w
    cases read with
    | error kind => exact moves_pure _
    | ok bytes =>
      have harrived : (Deed.arrived bytes).IsTransfer := trivial
      exact (moves_note harrived).bind fun _ => moves_readChunkFrom _

theorem moves_readRound : Moves (readRound t) := by
  refine (asks_remaining).moves.bind fun _ => (asks_setTimeout).moves.bind fun _ =>
    (moves_readNdjsonChunk).bind fun read => ?_
  split
  · exact moves_pure _
  · exact moves_poison nofun
  · exact moves_pure _
  · exact moves_poison nofun

theorem moves_readLine : Moves (readLine t) := by
  intro w
  refine wp_untilValue (I := Went w) (E := Failed w) ?_ ?_ _ (.refl w)
  · intro u hu
    refine wp_mono (moves_readRound u) ?_ (fun e v hv => hv.after hu)
    intro line v hv
    exact ⟨fun _ _ => hu.trans hv, fun _ => hu.trans hv⟩
  · exact fun u hu => .cut hu nofun

theorem readValue_spec (w : World) :
    wp (readValue t) (fun m u => ∃ v, Went w v ∧ Step v u [.received m.1 m.2] ∧ u.poisoned = v.poisoned)
      (Failed w) w := by
  refine (moves_readLine).go (.refl w) fun line v hv => (asks_remaining).moves.go hv fun _ v hv => ?_
  cases Json.fromStr t.floatBits line.toList with
  | none => exact poison_failed nofun hv
  | some message => exact ⟨v, hv, ⟨rfl, rfl, rfl, rfl⟩, rfl⟩

end Emucap.Qmp
