import Emucap.GdbRsp.Packets
import Mathlib.Data.List.ReduceOption

/-!
# The poll against the blocking reader

A poll scans the bytes at hand for a packet as the decoder does (`reading_append`), but its size limit counts the
bytes before `$` as well. `Timely` says that no poll fails for that.
-/

namespace Emucap.GdbRsp

open Emucap.Lib

/-! ## What reads find -/

/-- What one read returns: at least one byte, and no more than fit its buffer. -/
structure Chunk where
  bytes : List UInt8
  nonempty : bytes ≠ []
  fits : bytes.length ≤ chunkSize

def chunkBytes (chunks : List Chunk) : List UInt8 := chunks.flatMap (·.bytes)

def pollBytes (reads : List (Option Chunk)) : List UInt8 := chunkBytes reads.reduceOption

@[simp] theorem pollBytes_nil : pollBytes [] = [] := rfl

@[simp] theorem pollBytes_none (reads : List (Option Chunk)) : pollBytes (none :: reads) = pollBytes reads := rfl

@[simp] theorem pollBytes_some (chunk : Chunk) (reads : List (Option Chunk)) :
    pollBytes (some chunk :: reads) = chunk.bytes ++ pollBytes reads := by
  simp [pollBytes, chunkBytes, List.reduceOption]

/-! ## Streams -/

/-- The packets a blocking reader returns, and the failure that ends them. -/
def packets : ℕ → List UInt8 → List (Option String)
  | 0, _ => []
  | n + 1, s =>
    match reading s with
    | .packet raw rest => some (packetText raw) :: packets n rest
    | _ => [none]

inductive Polled where
  | packet (raw buf : List UInt8) (reads : List (Option Chunk))
  | quiet (buf : List UInt8) (reads : List (Option Chunk))
  | failed

def takePacket (buf : List UInt8) (reads : List (Option Chunk)) : Polled :=
  match reading buf with
  | .packet raw rest => .packet raw rest reads
  | _ => .failed

def settle (buf : List UInt8) (reads : List (Option Chunk)) : Polled :=
  if hasCompleteBufferedPacket buf then takePacket buf reads
  else if (pendingPacketError buf).isSome then .failed
  else .quiet buf reads

def poll (buf : List UInt8) (reads : List (Option Chunk)) : Polled :=
  if hasCompleteBufferedPacket buf then takePacket buf reads
  else if (pendingPacketError buf).isSome then .failed
  else
    match reads with
    | [] => .failed
    | none :: later => settle buf later
    | some chunk :: later => settle (buf ++ chunk.bytes) later

def Polled.outcomes (later : List UInt8 → List (Option Chunk) → List (Option String)) : Polled → List (Option String)
  | .packet raw buf reads => some (packetText raw) :: later buf reads
  | .quiet buf reads => later buf reads
  | .failed => [none]

/-- The packets of up to `n` polls. -/
def polled : ℕ → List UInt8 → List (Option Chunk) → List (Option String)
  | 0, _, _ => []
  | n + 1, buf, reads => (poll buf reads).outcomes (polled n)

/-- The rests of a stream at which the blocking reader begins to read a packet. -/
inductive PacketStart (s : List UInt8) : List UInt8 → Prop where
  | first : PacketStart s s
  | next {u raw rest : List UInt8} (hu : PacketStart s u) (hread : reading u = .packet raw rest) : PacketStart s rest

/-- No poll ends inside a packet that the blocking reader accepts with more than 8 MiB + 4 bytes since the end of
the packet before it. `reads.drop i` is what is still to come after `i` polls. -/
def Timely (s : List UInt8) (reads : List (Option Chunk)) : Prop :=
  ∀ u raw rest, PacketStart s u → reading u = .packet raw rest → ∀ i,
    ¬ (rest.length < (pollBytes (reads.drop i)).length ∧
      (pollBytes (reads.drop i)).length + (maxRspPayloadBytes + 4) < u.length)

theorem length_pollBytes_drop (reads : List (Option Chunk)) (i : ℕ) :
    (pollBytes (reads.drop i)).length ≤ (pollBytes reads).length := by
  induction reads generalizing i with
  | nil => simp
  | cons read reads ih =>
    cases i with
    | zero => exact le_rfl
    | succ i =>
      refine (ih i).trans ?_
      cases read with
      | none => exact le_rfl
      | some chunk => simp

theorem PacketStart.of_rest {s raw rest u : List UInt8} (hs : reading s = .packet raw rest)
    (hu : PacketStart rest u) : PacketStart s u := by
  induction hu with
  | first => exact .next .first hs
  | next _ hread ih => exact .next ih hread

theorem PacketStart.cases_rest {s raw rest u : List UInt8} (hs : reading s = .packet raw rest)
    (hu : PacketStart s u) : u = s ∨ PacketStart rest u := by
  induction hu with
  | first => exact .inl rfl
  | next hu hread ih =>
    right
    obtain rfl | hrest := ih
    · rw [hs] at hread
      cases hread
      exact .first
    · exact .next hrest hread

theorem PacketStart.eq_of_stuck {s u : List UInt8} (hs : ∀ raw rest, reading s ≠ .packet raw rest)
    (hu : PacketStart s u) : u = s := by
  induction hu with
  | first => rfl
  | next _ hread ih =>
    subst ih
    exact absurd hread (hs _ _)

theorem timely_of_stuck {s : List UInt8} (hs : ∀ raw rest, reading s ≠ .packet raw rest)
    (reads : List (Option Chunk)) : Timely s reads := by
  intro u raw rest hu hread
  rw [hu.eq_of_stuck hs] at hread
  exact absurd hread (hs _ _)

theorem timely_rest {s raw rest : List UInt8} {reads : List (Option Chunk)} (hs : reading s = .packet raw rest)
    (hwhole : (pollBytes reads).length ≤ rest.length) : Timely s reads ↔ Timely rest reads := by
  constructor
  · intro h u raw' rest' hu
    exact h u raw' rest' (hu.of_rest hs)
  · intro h u raw' rest' hu hread i
    obtain rfl | hrest := hu.cases_rest hs
    · rw [hs] at hread
      cases hread
      have hle := length_pollBytes_drop reads i
      omega
    · exact h u raw' rest' hrest hread i

theorem timely_next {buf : List UInt8} {read : Option Chunk} {reads : List (Option Chunk)}
    (hsize : buf.length ≤ maxRspPayloadBytes + 4) :
    Timely (buf ++ pollBytes (read :: reads)) (read :: reads) ↔ Timely (buf ++ pollBytes (read :: reads)) reads := by
  have hlonger : ∀ {s u : List UInt8}, PacketStart s u → u.length ≤ s.length := by
    intro s u hu
    induction hu with
    | first => exact le_rfl
    | next _ hread ih => exact (reading_length hread).le.trans ih
  constructor
  · exact fun h u raw rest hu hread i => h u raw rest hu hread (i + 1)
  · intro h u raw rest hu hread i
    cases i with
    | zero =>
      have hle := hlonger hu
      rw [List.length_append] at hle
      rw [List.drop_zero]
      omega
    | succ i => exact h u raw rest hu hread i

theorem size_of_pending {buf : List UInt8} (h : (pendingPacketError buf).isSome = false) :
    buf.length ≤ maxRspPayloadBytes + 4 := by
  unfold pendingPacketError at h
  split_ifs at h with hlong hsize
  · cases h
  · cases h
  · omega

theorem packets_stuck {m : ℕ} {s : List UInt8} (hs : ∀ raw rest, reading s ≠ .packet raw rest) (hm : 0 < m) :
    packets m s = [none] := by
  obtain ⟨m, rfl⟩ : ∃ k, m = k + 1 := ⟨m - 1, by omega⟩
  rw [packets]
  split
  next raw rest h => exact absurd h (hs raw rest)
  next => rfl

section step
variable {n m : ℕ} {buf : List UInt8} {reads : List (Option Chunk)}

/-- A poll that refuses what it has is wrong exactly where the packet is a good one. -/
theorem refused_eq_iff (hm : 0 < m) (hincomplete : hasCompleteBufferedPacket buf = false)
    (hrefused : (pendingPacketError buf).isSome = true) :
    [none] = packets m (buf ++ pollBytes reads) ↔ Timely (buf ++ pollBytes reads) reads := by
  by_cases hpacket : ∃ raw rest, reading (buf ++ pollBytes reads) = .packet raw rest
  · obtain ⟨raw, rest, hread⟩ := hpacket
    have hsize : maxRspPayloadBytes + 4 < buf.length := by
      unfold pendingPacketError at hrefused
      split_ifs at hrefused with hlong hsize
      · rw [reading_of_long_start hlong] at hread
        cases hread
      · exact hsize
      · cases hrefused
    have hlt := incomplete_lt hread hincomplete
    have hlate : ¬ Timely (buf ++ pollBytes reads) reads := by
      intro h
      refine h _ raw rest .first hread 0 ⟨hlt, ?_⟩
      rw [List.drop_zero, List.length_append]
      omega
    obtain ⟨m, rfl⟩ : ∃ k, m = k + 1 := ⟨m - 1, by omega⟩
    simp [packets, hread, hlate]
  · have hstuck : ∀ raw rest, reading (buf ++ pollBytes reads) ≠ .packet raw rest :=
      fun raw rest h => hpacket ⟨raw, rest, h⟩
    rw [packets_stuck hstuck hm]
    exact iff_of_true rfl (timely_of_stuck hstuck reads)

variable (ih : ∀ m buf reads, reads.length + (buf ++ pollBytes reads).length < n →
  (buf ++ pollBytes reads).length < m →
  (polled n buf reads = packets m (buf ++ pollBytes reads) ↔ Timely (buf ++ pollBytes reads) reads))
include ih

theorem takePacket_eq_iff (hn : reads.length + (buf ++ pollBytes reads).length < n + 1)
    (hm : (buf ++ pollBytes reads).length < m) (hcomplete : hasCompleteBufferedPacket buf = true) :
    (takePacket buf reads).outcomes (polled n) = packets m (buf ++ pollBytes reads) ↔
      Timely (buf ++ pollBytes reads) reads := by
  obtain ⟨hbuf, hall⟩ | ⟨raw, rest, hbuf, hall⟩ := reading_append hcomplete (pollBytes reads)
  · have hstuck : ∀ raw rest, reading (buf ++ pollBytes reads) ≠ .packet raw rest := by simp [hall]
    rw [packets_stuck hstuck (by omega)]
    simp only [takePacket, hbuf, Polled.outcomes]
    exact iff_of_true trivial (timely_of_stuck hstuck reads)
  · have hshorter := reading_length hall
    obtain ⟨m, rfl⟩ : ∃ k, m = k + 1 := ⟨m - 1, by omega⟩
    rw [timely_rest hall (by rw [List.length_append]; omega)]
    simp only [takePacket, hbuf, Polled.outcomes, packets, hall, List.cons.injEq, true_and]
    exact ih m rest reads (by omega) (by omega)

theorem settle_eq_iff (hn : reads.length + (buf ++ pollBytes reads).length < n)
    (hm : (buf ++ pollBytes reads).length < m) :
    (settle buf reads).outcomes (polled n) = packets m (buf ++ pollBytes reads) ↔
      Timely (buf ++ pollBytes reads) reads := by
  unfold settle
  split_ifs with hcomplete hrefused
  · exact takePacket_eq_iff ih (by omega) hm hcomplete
  · exact refused_eq_iff (by omega) (by simpa using hcomplete) hrefused
  · exact ih m buf reads hn hm

end step

/-- Polls and blocking reads of one stream agree exactly if every poll is timely. -/
theorem polled_eq_iff (n m : ℕ) (buf : List UInt8) (reads : List (Option Chunk))
    (hn : reads.length + (buf ++ pollBytes reads).length < n) (hm : (buf ++ pollBytes reads).length < m) :
    polled n buf reads = packets m (buf ++ pollBytes reads) ↔ Timely (buf ++ pollBytes reads) reads := by
  induction n generalizing m buf reads with
  | zero => omega
  | succ n ih =>
    rw [polled]
    unfold poll
    split_ifs with hcomplete hrefused
    · exact takePacket_eq_iff ih hn hm hcomplete
    · exact refused_eq_iff (by omega) (by simpa using hcomplete) hrefused
    · have hsize : buf.length ≤ maxRspPayloadBytes + 4 := size_of_pending (by simpa using hrefused)
      cases reads with
      | nil =>
        have hstuck : ∀ raw rest, reading (buf ++ pollBytes []) ≠ .packet raw rest := by
          intro raw rest h
          have hlt := incomplete_lt h (by simpa using hcomplete)
          simp at hlt
        rw [packets_stuck hstuck (by omega)]
        exact iff_of_true rfl (timely_of_stuck hstuck [])
      | cons read later =>
        rw [timely_next hsize]
        rw [List.length_cons] at hn
        cases read with
        | none => exact settle_eq_iff ih (by simp only [pollBytes_none] at hn; omega) hm
        | some chunk =>
          rw [pollBytes_some, ← List.append_assoc] at hn hm ⊢
          exact settle_eq_iff ih (by omega) hm

end Emucap.GdbRsp
