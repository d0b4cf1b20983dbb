import Mathlib.Data.List.Basic
import Mathlib.Data.Nat.Notation

/-!
# Exact reads and writes on a stream socket

A call moves some bytes, is interrupted, or fails; the usual loops repeat it until a buffer is filled or drained.
Without a failing call the loops do the same whatever the calls move at a time (`readExact_eq`, `writeAll_eq`).
-/

namespace Emucap.Lib

/-- What one call does: it moves at most `k + 1` bytes, is interrupted by a signal, or fails. -/
inductive Transfer where
  | moves (k : ℕ)
  | interrupted
  | fails
  deriving DecidableEq

inductive Traffic where
  | received (b : UInt8)
  | sent (b : UInt8)
  deriving DecidableEq

/-- After the listed calls every call moves as much as it can. -/
structure Socket where
  incoming : List UInt8
  calls : List Transfer
  trace : List Traffic

namespace Socket

def receiving : List Transfer → ℕ → List UInt8 → List UInt8 × Bool × List Transfer
  | calls, 0, _ => ([], true, calls)
  | [], size, incoming => (incoming.take size, size ≤ incoming.length, [])
  | .interrupted :: calls, size, incoming => receiving calls size incoming
  | .fails :: calls, _, _ => ([], false, calls)
  | .moves k :: calls, size, incoming =>
    let chunk := incoming.take (min (k + 1) size)
    if chunk = [] then ([], false, calls)
    else
      let (more, filled, left) := receiving calls (size - chunk.length) (incoming.drop chunk.length)
      (chunk ++ more, filled, left)

def sending : List Transfer → List UInt8 → List UInt8 × Bool × List Transfer
  | calls, [] => ([], true, calls)
  | [], bytes => (bytes, true, [])
  | .interrupted :: calls, bytes => sending calls bytes
  | .fails :: calls, _ => ([], false, calls)
  | .moves k :: calls, bytes =>
    let (more, drained, left) := sending calls (bytes.drop (k + 1))
    (bytes.take (k + 1) ++ more, drained, left)

def readExact (size : ℕ) (s : Socket) : Option (List UInt8) × Socket :=
  let (bytes, filled, left) := receiving s.calls size s.incoming
  (if filled then some bytes else none,
    ⟨s.incoming.drop bytes.length, left, s.trace ++ bytes.map .received⟩)

def writeAll (bytes : List UInt8) (s : Socket) : Bool × Socket :=
  let (written, drained, left) := sending s.calls bytes
  (drained, { s with calls := left, trace := s.trace ++ written.map .sent })

/-! ## Without a failing call -/

theorem receiving_moves {calls : List Transfer} {k size : ℕ} {incoming : List UInt8} (h : .fails ∉ calls)
    (ih : .fails ∉ calls → ∀ (size : ℕ) (incoming : List UInt8), ∃ left, .fails ∉ left ∧
      receiving calls size incoming = (incoming.take size, decide (size ≤ incoming.length), left)) :
    ∃ left, .fails ∉ left ∧ receiving (.moves k :: calls) (size + 1) incoming
      = (incoming.take (size + 1), decide (size + 1 ≤ incoming.length), left) := by
  obtain ⟨chunk, hchunk⟩ : ∃ chunk, chunk = incoming.take (min (k + 1) (size + 1)) := ⟨_, rfl⟩
  have hlen : chunk.length = min (min (k + 1) (size + 1)) incoming.length := by rw [hchunk, List.length_take]
  have hsplit : chunk ++ incoming.drop chunk.length = incoming := by
    rw [hlen, hchunk, ← List.drop_eq_drop_min]
    exact List.take_append_drop _ _
  rw [receiving.eq_def]
  simp only [← hchunk]
  by_cases hnone : chunk = []
  · have hempty : incoming = [] := by
      rw [hnone, List.length_nil] at hlen
      exact List.eq_nil_of_length_eq_zero (by omega)
    rw [if_pos hnone, hempty]
    exact ⟨calls, h, rfl⟩
  · obtain ⟨left, hleft, heq⟩ := ih h (size + 1 - chunk.length) (incoming.drop chunk.length)
    refine ⟨left, hleft, ?_⟩
    rw [if_neg hnone, heq]
    have hbytes : chunk ++ (incoming.drop chunk.length).take (size + 1 - chunk.length) = incoming.take (size + 1) := by
      have hwhole : chunk.take (size + 1) = chunk := List.take_of_length_le (by omega)
      conv_rhs => rw [← hsplit, List.take_append, hwhole]
    have hfilled : (size + 1 - chunk.length ≤ (incoming.drop chunk.length).length) ↔ size + 1 ≤ incoming.length := by
      rw [List.length_drop]
      omega
    simp only [hbytes, decide_eq_decide.mpr hfilled]

theorem receiving_spec {calls : List Transfer} (h : .fails ∉ calls) (size : ℕ) (incoming : List UInt8) :
    ∃ left, .fails ∉ left ∧
      receiving calls size incoming = (incoming.take size, decide (size ≤ incoming.length), left) := by
  induction calls generalizing size incoming with
  | nil =>
    cases size with
    | zero => exact ⟨[], h, by simp [receiving]⟩
    | succ size => exact ⟨[], h, rfl⟩
  | cons c calls ih =>
    rw [List.mem_cons, not_or] at h
    cases size with
    | zero => exact ⟨c :: calls, by simp [h.1, h.2], by simp [receiving]⟩
    | succ size =>
      cases c with
      | interrupted => exact ih h.2 (size + 1) incoming
      | fails => exact absurd rfl h.1
      | moves k =>
        exact receiving_moves h.2 ih

theorem sending_spec {calls : List Transfer} (h : .fails ∉ calls) (bytes : List UInt8) :
    ∃ left, .fails ∉ left ∧ sending calls bytes = (bytes, true, left) := by
  induction calls generalizing bytes with
  | nil =>
    cases bytes with
    | nil => exact ⟨[], h, rfl⟩
    | cons b bytes => exact ⟨[], h, rfl⟩
  | cons c calls ih =>
    rw [List.mem_cons, not_or] at h
    cases bytes with
    | nil => exact ⟨c :: calls, by simp [h.1, h.2], by simp [sending]⟩
    | cons b bytes =>
      cases c with
      | interrupted => exact ih h.2 (b :: bytes)
      | fails => exact absurd rfl h.1
      | moves k =>
        obtain ⟨left, hleft, heq⟩ := ih h.2 ((b :: bytes).drop (k + 1))
        refine ⟨left, hleft, ?_⟩
        rw [sending, heq]
        · simp only [List.take_append_drop]
        · simp

theorem readExact_eq {s : Socket} (h : .fails ∉ s.calls) (size : ℕ) :
    ∃ left, .fails ∉ left ∧ s.readExact size =
      (if size ≤ s.incoming.length then some (s.incoming.take size) else none,
        ⟨s.incoming.drop size, left, s.trace ++ (s.incoming.take size).map .received⟩) := by
  obtain ⟨left, hleft, heq⟩ := receiving_spec h size s.incoming
  refine ⟨left, hleft, ?_⟩
  have hdrop : s.incoming.drop (s.incoming.take size).length = s.incoming.drop size := by
    rw [List.length_take, ← List.drop_eq_drop_min]
  simp only [readExact, heq, hdrop, decide_eq_true_eq]

theorem writeAll_eq {s : Socket} (h : .fails ∉ s.calls) (bytes : List UInt8) :
    ∃ left, .fails ∉ left ∧
      s.writeAll bytes = (true, ⟨s.incoming, left, s.trace ++ bytes.map .sent⟩) := by
  obtain ⟨left, hleft, heq⟩ := sending_spec h bytes
  refine ⟨left, hleft, ?_⟩
  simp only [writeAll, heq]

end Socket

end Emucap.Lib
