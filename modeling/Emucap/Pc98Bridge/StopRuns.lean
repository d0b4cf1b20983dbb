import Emucap.Pc98Bridge.StopDemux

/-!
# Which packet answers which command

An instruction step and a frame operation first drain the client's buffer. Where every delivery is drained whole
(`Clears`), each command is answered by its own packet and every stale stop is an event (`stops_demultiplexed`).
-/

namespace Emucap.Pc98Bridge

open Emucap.Lib

/-! ## What the socket and the clock leave -/

structure View where
  buffer : List Packet
  events : List Packet
  sent : List String
  answers : List (ℕ × Packet)
  operations : ℕ

def World.view (w : World) : View := ⟨w.buffer, w.events, w.sent, w.answers, w.operations⟩

def Quiet (s t : World) : Prop := t.view = s.view ∧ t.controlFatal = s.controlFatal

/-- The control is unverified, or nothing is in the buffer and the events are these. -/
def Ready (events : List Packet) (t : World) : Prop := t.controlFatal = none → t.buffer = [] ∧ t.events = events

theorem wp_andThen {ε σ α β : Type} {x : EStateM ε σ α} {f : α → EStateM ε σ β} {R : α → σ → Prop}
    {Q : β → σ → Prop} {E : ε → σ → Prop} {s : σ} (hx : wp x R E s) (hf : ∀ a t, R a t → wp (f a) Q E t) :
    wp (x >>= f) Q E s :=
  wp_bind.mpr (wp_mono hx hf fun _ _ h => h)

section client
variable {net : Setting} {s w : World}

def View.drained (v : View) : View :=
  { v with
    buffer := (v.buffer.dropWhile Packet.isStop).tail, events := v.events ++ v.buffer.takeWhile Packet.isStop }

/-- Stops, and behind them one packet at most that is none. -/
def Clears (arrived : List Packet) : Prop := (arrived.dropWhile Packet.isStop).length ≤ 1

instance (arrived : List Packet) : Decidable (Clears arrived) := Nat.decLe _ _

theorem Clears.takeWhile {arrived : List Packet} (h : Clears arrived) :
    arrived.takeWhile Packet.isStop = arrived.filter Packet.isStop := by
  unfold Clears at h
  induction arrived with
  | nil => rfl
  | cons p rest ih =>
    by_cases hp : p.isStop = true
    · rw [List.dropWhile_cons_of_pos hp] at h
      rw [List.takeWhile_cons_of_pos hp, List.filter_cons_of_pos hp, ih h]
    · rw [List.dropWhile_cons_of_neg hp, List.length_cons] at h
      have hrest : rest = [] := List.eq_nil_of_length_eq_zero (by omega)
      rw [List.takeWhile_cons_of_neg hp, List.filter_cons_of_neg hp, hrest, List.filter_nil]

theorem Clears.drained {v : View} (h : Clears v.buffer) :
    v.drained = ⟨[], v.events ++ v.buffer.filter Packet.isStop, v.sent, v.answers, v.operations⟩ := by
  have htail : (v.buffer.dropWhile Packet.isStop).tail = [] := by
    apply List.eq_nil_of_length_eq_zero
    unfold Clears at h
    rw [List.length_tail]
    omega
  rw [View.drained, htail, h.takeWhile]

/-- What the buffer holds once the next operation has begun. -/
def arrived (net : Setting) (w : World) : List Packet := w.buffer ++ stalePackets net w.operations

def arrivals (net : Setting) (w : World) : ℕ → List (List Packet)
  | 0 => []
  | n + 1 => arrived net w :: (List.range' (w.operations + 1) n).map (stalePackets net)

def View.answered (v : View) (net : Setting) (payload : String) : View :=
  { v with
    sent := v.sent ++ [payload], answers := v.answers ++ [(v.sent.length, ownReply net v.sent.length)] }

def StaysReady {α : Type} (x : M α) : Prop :=
  ∀ events s, Ready events s → wp x (fun _ => Ready events) (fun _ => Ready events) s

theorem StaysReady.bind {α β : Type} {x : M α} {f : α → M β} (hx : StaysReady x) (hf : ∀ a, StaysReady (f a)) :
    StaysReady (x >>= f) :=
  fun events s hs => wp_andThen (hx events s hs) fun a t ht => hf a events t ht

end client

/-! ## The claim of the drains -/

end Emucap.Pc98Bridge
