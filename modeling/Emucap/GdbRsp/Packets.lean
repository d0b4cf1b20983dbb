import Emucap.GdbRsp.Fence

/-!
# What `read_packet` reads

`reading s` says of a list of bytes what the decoder makes of it: a packet and the bytes after it, no packet,
or that it ends too soon. `wp_readPacket` connects it with `read_packet`, which takes its bytes one by one,
for any way `I` in which a client can have bytes to read and any outcome `E` of a failing call.
-/

namespace Emucap.GdbRsp

open Emucap.Lib

inductive Reading where
  | packet (raw rest : List UInt8)
  | malformed
  | starved
  deriving DecidableEq

/-- The bytes before a `$` and those from it on. -/
def beforeStart (s : List UInt8) : List UInt8 := s.takeWhile (· ≠ packetStart)
def fromStart (s : List UInt8) : List UInt8 := s.dropWhile (· ≠ packetStart)

/-- The bytes before a `#` and those from it on. -/
def beforeEnd (s : List UInt8) : List UInt8 := s.takeWhile (· ≠ packetEnd)
def fromEnd (s : List UInt8) : List UInt8 := s.dropWhile (· ≠ packetEnd)

def readingBody (body : List UInt8) : Reading :=
  if maxRspPayloadBytes < (beforeEnd body).length then .malformed
  else
    match fromEnd body with
    | _ :: c0 :: c1 :: rest =>
      if parseChecksum c0 c1 = some (checksum (beforeEnd body)) then .packet (beforeEnd body) rest else .malformed
    | _ => .starved

def reading (s : List UInt8) : Reading :=
  if maxRspPrefixBytes < (beforeStart s).length then .malformed
  else
    match fromStart s with
    | [] => .starved
    | _ :: body => readingBody body

section cons
variable {b : UInt8} {s : List UInt8}

theorem beforeStart_cons (h : b ≠ packetStart) : beforeStart (b :: s) = b :: beforeStart s := by
  simp [beforeStart, h]

theorem fromStart_cons (h : b ≠ packetStart) : fromStart (b :: s) = fromStart s := by simp [fromStart, h]

theorem beforeStart_start : beforeStart (packetStart :: s) = [] := by simp [beforeStart]

theorem fromStart_start : fromStart (packetStart :: s) = packetStart :: s := by simp [fromStart]

theorem beforeEnd_cons (h : b ≠ packetEnd) : beforeEnd (b :: s) = b :: beforeEnd s := by simp [beforeEnd, h]

theorem fromEnd_cons (h : b ≠ packetEnd) : fromEnd (b :: s) = fromEnd s := by simp [fromEnd, h]

theorem beforeEnd_end : beforeEnd (packetEnd :: s) = [] := by simp [beforeEnd]

theorem fromEnd_end : fromEnd (packetEnd :: s) = packetEnd :: s := by simp [fromEnd]

end cons

/-! ## The loops of `read_packet` -/

section loops

variable {I : List UInt8 → GdbRspClient → Prop} {E : IoError → GdbRspClient → Prop}
  (hread : ∀ b s c, I (b :: s) c → wp readByte (fun a t => a = b ∧ I s t) E c)
include hread

theorem wp_seekStart {Q : Unit → GdbRspClient → Prop} {left : ℕ} {s : List UInt8} {c : GdbRspClient} (hI : I s c)
    (hfound : ∀ d body t, (beforeStart s).length ≤ left → fromStart s = d :: body → I body t → Q () t)
    (hlong : left < (beforeStart s).length → ∀ s' t, I s' t → E prefixTooLong t)
    (hstarved : (beforeStart s).length ≤ left → fromStart s = [] → ∀ t, I [] t →
      wp readByte (fun _ _ => False) E t) :
    wp (seekStart left) Q E c := by
  induction left generalizing s c with
  | zero =>
    unfold seekStart
    rw [wp_bind]
    cases s with
    | nil => exact wp_mono (hstarved le_rfl rfl c hI) (fun _ _ h => h.elim) (fun _ _ h => h)
    | cons b s =>
      refine wp_mono (hread b s c hI) ?_ (fun _ _ h => h)
      rintro a t ⟨rfl, ht⟩
      by_cases hb : a = packetStart
      · rw [if_neg (not_not_intro hb)]
        subst hb
        exact hfound packetStart s t (by rw [beforeStart_start]; exact le_rfl) fromStart_start ht
      · rw [if_pos hb]
        exact hlong (by rw [beforeStart_cons hb]; exact Nat.succ_pos _) s t ht
  | succ left ih =>
    unfold seekStart
    rw [wp_bind]
    cases s with
    | nil => exact wp_mono (hstarved (Nat.zero_le _) rfl c hI) (fun _ _ h => h.elim) (fun _ _ h => h)
    | cons b s =>
      refine wp_mono (hread b s c hI) ?_ (fun _ _ h => h)
      rintro a t ⟨rfl, ht⟩
      by_cases hb : a = packetStart
      · rw [if_neg (not_not_intro hb)]
        subst hb
        exact hfound packetStart s t (by rw [beforeStart_start]; exact Nat.zero_le _) fromStart_start ht
      · rw [if_pos hb]
        simp only [beforeStart_cons hb, fromStart_cons hb, List.length_cons] at hfound hlong hstarved
        refine ih ht (fun d body u hle => hfound d body u (by omega)) (fun hlt => hlong (by omega))
          (fun hle => hstarved (by omega))

theorem wp_readPayload {Q : List UInt8 → GdbRspClient → Prop} {left : ℕ} {s : List UInt8} {c : GdbRspClient}
    (hI : I s c)
    (hfound : ∀ d rest t, (beforeEnd s).length ≤ left → fromEnd s = d :: rest → I rest t → Q (beforeEnd s) t)
    (hlong : left < (beforeEnd s).length → ∀ s' t, I s' t → E payloadTooLong t)
    (hstarved : (beforeEnd s).length ≤ left → fromEnd s = [] → ∀ t, I [] t →
      wp readByte (fun _ _ => False) E t) :
    wp (readPayload left) Q E c := by
  induction left generalizing s c Q with
  | zero =>
    unfold readPayload
    rw [wp_bind]
    cases s with
    | nil => exact wp_mono (hstarved le_rfl rfl c hI) (fun _ _ h => h.elim) (fun _ _ h => h)
    | cons b s =>
      refine wp_mono (hread b s c hI) ?_ (fun _ _ h => h)
      rintro a t ⟨rfl, ht⟩
      by_cases hb : a = packetEnd
      · rw [if_pos hb]
        subst hb
        have hq := hfound packetEnd s t (by rw [beforeEnd_end]; exact le_rfl) fromEnd_end ht
        rw [beforeEnd_end] at hq
        exact hq
      · rw [if_neg hb]
        exact hlong (by rw [beforeEnd_cons hb]; exact Nat.succ_pos _) s t ht
  | succ left ih =>
    unfold readPayload
    rw [wp_bind]
    cases s with
    | nil => exact wp_mono (hstarved (Nat.zero_le _) rfl c hI) (fun _ _ h => h.elim) (fun _ _ h => h)
    | cons b s =>
      refine wp_mono (hread b s c hI) ?_ (fun _ _ h => h)
      rintro a t ⟨rfl, ht⟩
      by_cases hb : a = packetEnd
      · rw [if_pos hb]
        subst hb
        have hq := hfound packetEnd s t (by rw [beforeEnd_end]; exact Nat.zero_le _) fromEnd_end ht
        rw [beforeEnd_end] at hq
        exact hq
      · rw [if_neg hb, wp_bind]
        simp only [beforeEnd_cons hb, fromEnd_cons hb, List.length_cons] at hfound hlong hstarved
        refine ih ht (fun d rest u hle => hfound d rest u (by omega)) (fun hlt => hlong (by omega))
          (fun hle => hstarved (by omega))

theorem wp_nextByte {Q : UInt8 → GdbRspClient → Prop} {s : List UInt8} {c : GdbRspClient} (hI : I s c)
    (hnext : ∀ b rest t, s = b :: rest → I rest t → Q b t)
    (hstarved : s = [] → ∀ t, I [] t → wp readByte (fun _ _ => False) E t) : wp readByte Q E c := by
  cases s with
  | nil => exact wp_mono (hstarved rfl c hI) (fun _ _ h => h.elim) (fun _ _ h => h)
  | cons b rest =>
    refine wp_mono (hread b rest c hI) ?_ (fun _ _ h => h)
    rintro a t ⟨rfl, ht⟩
    exact hnext a rest t rfl ht

omit hread in
theorem wp_acknowledge {Q : String → GdbRspClient → Prop} {raw rest : List UInt8} {c0 c1 : UInt8} {c : GdbRspClient}
    (hwrite : ∀ bytes s c, I s c → wp (writeBytes bytes) (fun _ t => I s t) E c) (hI : I rest c)
    (hgood : parseChecksum c0 c1 = some (checksum raw) → ∀ t, I rest t → Q (packetText raw) t)
    (hbad : parseChecksum c0 c1 ≠ some (checksum raw) → ∀ t, I rest t → E checksumMismatch t)
    (herror : ∀ e t, E e t → ∀ e', E e' t) :
    wp (acknowledge raw c0 c1) Q E c := by
  unfold acknowledge
  split_ifs with hsum
  · rw [wp_bind]
    refine wp_mono (hwrite _ rest c hI) (fun _ t ht => ?_) (fun _ _ h => h)
    exact hgood hsum t ht
  · unfold ignoring
    simp only [wp_bind, wp_attempt]
    exact wp_mono (hwrite _ rest c hI) (fun _ t ht => hbad hsum t ht) (fun e t ht => herror e t ht _)

variable (hwrite : ∀ bytes s c, I s c → wp (writeBytes bytes) (fun _ t => I s t) E c)
  (herror : ∀ e t, E e t → ∀ e', E e' t)
include hwrite herror

theorem wp_readPacket {Q : String → GdbRspClient → Prop} {s : List UInt8} {c : GdbRspClient} (hI : I s c)
    (hpacket : ∀ raw rest t, reading s = .packet raw rest → I rest t → Q (packetText raw) t)
    (hmalformed : reading s = .malformed → ∀ s' e t, I s' t → E e t)
    (hstarved : reading s = .starved → ∀ t, I [] t → wp readByte (fun _ _ => False) E t) :
    wp readPacket Q E c := by
  unfold readPacket
  rw [wp_bind]
  refine wp_seekStart hread hI (fun d body t hle hfrom ht => ?_) (fun hlt s' t ht => ?_) (fun hle hfrom => ?_)
  · have hbody : reading s = readingBody body := by rw [reading, if_neg (by omega), hfrom]
    rw [hbody] at hpacket hmalformed hstarved
    rw [wp_bind]
    refine wp_readPayload hread ht (fun d more t hle hfrom ht => ?_) (fun hlt s' t ht => ?_) (fun hle hfrom => ?_)
    · have hmore : readingBody body = match d :: more with
          | _ :: c0 :: c1 :: rest =>
            if parseChecksum c0 c1 = some (checksum (beforeEnd body)) then .packet (beforeEnd body) rest
            else .malformed
          | _ => .starved := by
        rw [readingBody, if_neg (by omega), hfrom]
      rw [wp_bind]
      refine wp_nextByte hread ht (fun c0 more₁ t₁ hmore₁ ht₁ => ?_) (fun hnil => ?_)
      · subst hmore₁
        rw [wp_bind]
        refine wp_nextByte hread ht₁ (fun c1 rest t₂ hrest ht₂ => ?_) (fun hnil => ?_)
        · subst hrest
          simp only at hmore
          refine wp_acknowledge hwrite ht₂ (fun hsum u hu => ?_) (fun hsum u hu => ?_) herror
          · rw [if_pos hsum] at hmore
            exact hpacket _ rest u hmore hu
          · rw [if_neg hsum] at hmore
            exact hmalformed hmore rest _ u hu
        · subst hnil
          exact hstarved hmore
      · subst hnil
        exact hstarved hmore
    · exact hmalformed (by rw [readingBody, if_pos hlt]) s' _ t ht
    · exact hstarved (by rw [readingBody, if_neg (by omega), hfrom])
  · exact hmalformed (by rw [reading, if_pos hlt]) s' _ t ht
  · exact hstarved (by rw [reading, if_neg (by omega), hfrom])

end loops

/-! ## A packet and what surrounds it -/

section append
variable {s more : List UInt8}

theorem fromStart_append (h : fromStart s ≠ []) : fromStart (s ++ more) = fromStart s ++ more := by
  unfold fromStart at h ⊢
  rw [List.dropWhile_append, if_neg (by rwa [List.isEmpty_iff])]

theorem fromEnd_append (h : fromEnd s ≠ []) : fromEnd (s ++ more) = fromEnd s ++ more := by
  unfold fromEnd at h ⊢
  rw [List.dropWhile_append, if_neg (by rwa [List.isEmpty_iff])]

theorem length_takeWhile_lt {p : UInt8 → Bool} (h : s.dropWhile p ≠ []) : (s.takeWhile p).length ≠ s.length := by
  have hsplit := congrArg List.length (List.takeWhile_append_dropWhile (p := p) (l := s))
  rw [List.length_append] at hsplit
  have hpos := List.length_pos_of_ne_nil h
  omega

theorem beforeStart_append (h : fromStart s ≠ []) : beforeStart (s ++ more) = beforeStart s := by
  unfold beforeStart
  rw [List.takeWhile_append, if_neg (length_takeWhile_lt h)]

theorem beforeEnd_append (h : fromEnd s ≠ []) : beforeEnd (s ++ more) = beforeEnd s := by
  unfold beforeEnd
  rw [List.takeWhile_append, if_neg (length_takeWhile_lt h)]

theorem length_beforeStart_append : (beforeStart s).length ≤ (beforeStart (s ++ more)).length := by
  unfold beforeStart
  rw [List.takeWhile_append]
  split_ifs with hall
  · rw [List.length_append]
    omega
  · exact le_rfl

end append

/-- The bytes that make up a packet once its checksum is there. -/
structure Complete (buf raw : List UInt8) (c0 c1 : UInt8) (rest : List UInt8) : Prop where
  start : ∃ body, fromStart buf = packetStart :: body ∧ fromEnd body = packetEnd :: c0 :: c1 :: rest ∧
    beforeEnd body = raw

theorem head_fromStart {s body : List UInt8} {d : UInt8} (h : fromStart s = d :: body) : d = packetStart := by
  have hhead := List.head?_dropWhile_not (· ≠ packetStart) s
  unfold fromStart at h
  rw [h] at hhead
  simpa using hhead

theorem head_fromEnd {s rest : List UInt8} {d : UInt8} (h : fromEnd s = d :: rest) : d = packetEnd := by
  have hhead := List.head?_dropWhile_not (· ≠ packetEnd) s
  unfold fromEnd at h
  rw [h] at hhead
  simpa using hhead

theorem complete_iff {buf : List UInt8} :
    hasCompleteBufferedPacket buf = true ↔ ∃ raw c0 c1 rest, Complete buf raw c0 c1 rest := by
  have hdef : hasCompleteBufferedPacket buf = match fromStart buf with
      | [] => false
      | _ :: body => match fromEnd body with
        | _ :: _ :: _ :: _ => true
        | _ => false := rfl
  rw [hdef]
  constructor
  · intro h
    cases hstart : fromStart buf with
    | nil => simp [hstart] at h
    | cons d body =>
      rw [hstart] at h
      simp only at h
      split at h
      next e c0 c1 rest hend =>
        obtain rfl := head_fromStart hstart
        obtain rfl := head_fromEnd hend
        exact ⟨_, c0, c1, rest, ⟨body, hstart, hend, rfl⟩⟩
      next => cases h
  · rintro ⟨raw, c0, c1, rest, ⟨body, hstart, hend, -⟩⟩
    rw [hstart]
    simp only [hend]

theorem Complete.append {buf raw rest : List UInt8} {c0 c1 : UInt8} (h : Complete buf raw c0 c1 rest)
    (more : List UInt8) : Complete (buf ++ more) raw c0 c1 (rest ++ more) := by
  obtain ⟨body, hstart, hend, hraw⟩ := h.start
  refine ⟨body ++ more, ?_, ?_, ?_⟩
  · rw [fromStart_append (by simp [hstart]), hstart]
    rfl
  · rw [fromEnd_append (by simp [hend]), hend]
    rfl
  · rw [beforeEnd_append (by simp [hend]), hraw]

theorem Complete.reading {buf raw rest : List UInt8} {c0 c1 : UInt8} (h : Complete buf raw c0 c1 rest) :
    reading buf = if maxRspPrefixBytes < (beforeStart buf).length ∨ maxRspPayloadBytes < raw.length ∨
      parseChecksum c0 c1 ≠ some (checksum raw) then .malformed else .packet raw rest := by
  obtain ⟨body, hstart, hend, hraw⟩ := h.start
  subst hraw
  unfold GdbRsp.reading
  by_cases hlong : maxRspPrefixBytes < (beforeStart buf).length
  · rw [if_pos hlong, if_pos (.inl hlong)]
  · rw [if_neg hlong, hstart]
    simp only [readingBody, hend]
    by_cases hpayload : maxRspPayloadBytes < (beforeEnd body).length
    · rw [if_pos hpayload, if_pos (.inr (.inl hpayload))]
    · rw [if_neg hpayload]
      by_cases hsum : parseChecksum c0 c1 = some (checksum (beforeEnd body))
      · rw [if_pos hsum, if_neg (by simp [hlong, hpayload, hsum])]
      · rw [if_neg hsum, if_pos (.inr (.inr hsum))]

theorem reading_append {buf : List UInt8} (h : hasCompleteBufferedPacket buf = true) (more : List UInt8) :
    (reading buf = .malformed ∧ reading (buf ++ more) = .malformed) ∨
      ∃ raw rest, reading buf = .packet raw rest ∧ reading (buf ++ more) = .packet raw (rest ++ more) := by
  obtain ⟨raw, c0, c1, rest, hcomplete⟩ := (complete_iff).mp h
  obtain ⟨body, hstart, -, -⟩ := hcomplete.start
  rw [hcomplete.reading, (hcomplete.append more).reading, beforeStart_append (by simp [hstart])]
  split_ifs
  · exact .inl ⟨rfl, rfl⟩
  · exact .inr ⟨raw, rest, rfl, rfl⟩

theorem reading_packet {s raw rest : List UInt8} (h : reading s = .packet raw rest) :
    ∃ c0 c1, Complete s raw c0 c1 rest ∧ (beforeStart s).length ≤ maxRspPrefixBytes := by
  unfold reading at h
  split_ifs at h with hlong
  cases hstart : fromStart s with
  | nil => simp [hstart] at h
  | cons d body =>
    obtain rfl := head_fromStart hstart
    rw [hstart] at h
    simp only [readingBody] at h
    split_ifs at h with hpayload
    split at h
    next e c0 c1 more hend =>
      obtain rfl := head_fromEnd hend
      split_ifs at h with hsum
      cases h
      exact ⟨c0, c1, ⟨body, hstart, hend, rfl⟩, by omega⟩
    next => cases h

theorem Complete.split {s raw rest : List UInt8} {c0 c1 : UInt8} (h : Complete s raw c0 c1 rest) :
    s = beforeStart s ++ packetStart :: raw ++ packetEnd :: c0 :: c1 :: rest := by
  obtain ⟨body, hstart, hend, hraw⟩ := h.start
  have hbody : raw ++ packetEnd :: c0 :: c1 :: rest = body := by
    rw [← hend, ← hraw]
    exact List.takeWhile_append_dropWhile
  rw [List.append_assoc, List.cons_append, hbody, ← hstart]
  exact List.takeWhile_append_dropWhile.symm

theorem not_mem_beforeStart (s : List UInt8) : packetStart ∉ beforeStart s := by
  intro h
  simpa using List.mem_takeWhile_imp h

theorem not_mem_beforeEnd (s : List UInt8) : packetEnd ∉ beforeEnd s := by
  intro h
  simpa using List.mem_takeWhile_imp h

/-- A framed payload with its prefix is complete, whatever follows. -/
theorem complete_framed {pre raw : List UInt8} (hpre : packetStart ∉ pre) (hraw : packetEnd ∉ raw) (c0 c1 : UInt8)
    (rest : List UInt8) :
    Complete (pre ++ packetStart :: raw ++ packetEnd :: c0 :: c1 :: rest) raw c0 c1 rest ∧
      beforeStart (pre ++ packetStart :: raw ++ packetEnd :: c0 :: c1 :: rest) = pre := by
  have hpre' : ∀ b ∈ pre, decide (b ≠ packetStart) = true := fun b hb => by
    simpa using fun heq : b = packetStart => hpre (heq ▸ hb)
  have hraw' : ∀ b ∈ raw, decide (b ≠ packetEnd) = true := fun b hb => by
    simpa using fun heq : b = packetEnd => hraw (heq ▸ hb)
  have hstart : fromStart (pre ++ packetStart :: raw ++ packetEnd :: c0 :: c1 :: rest)
      = packetStart :: (raw ++ packetEnd :: c0 :: c1 :: rest) := by
    unfold fromStart
    rw [List.append_assoc, List.dropWhile_append_of_pos hpre']
    simp
  refine ⟨⟨raw ++ packetEnd :: c0 :: c1 :: rest, hstart, ?_, ?_⟩, ?_⟩
  · unfold fromEnd
    rw [List.dropWhile_append_of_pos hraw']
    simp
  · unfold beforeEnd
    rw [List.takeWhile_append_of_pos hraw']
    simp
  · unfold beforeStart
    rw [List.append_assoc, List.takeWhile_append_of_pos hpre']
    simp

theorem incomplete_lt {buf more raw rest : List UInt8} (h : reading (buf ++ more) = .packet raw rest)
    (hincomplete : hasCompleteBufferedPacket buf = false) : rest.length < more.length := by
  obtain ⟨c0, c1, hcomplete, -⟩ := reading_packet h
  obtain ⟨pack, hpack⟩ : ∃ pack, pack = beforeStart (buf ++ more) ++ packetStart :: raw ++ [packetEnd, c0, c1] :=
    ⟨_, rfl⟩
  have hraw : packetEnd ∉ raw := by
    obtain ⟨body, -, -, rfl⟩ := hcomplete.start
    exact not_mem_beforeEnd body
  have hsplit : buf ++ more = pack ++ rest := by
    rw [hpack]
    simpa using hcomplete.split
  by_contra hle
  -- then the buffer begins with the whole packet
  obtain ⟨extra, hextra⟩ : ∃ extra, buf = pack ++ extra := by
    refine List.append_eq_append_iff.mp hsplit |>.elim ?_ ?_
    · rintro ⟨tail, rfl, rfl⟩
      rw [List.length_append] at hle
      have htail : tail = [] := List.eq_nil_of_length_eq_zero (by omega)
      exact ⟨[], by simp [htail]⟩
    · rintro ⟨tail, hbuf, -⟩
      exact ⟨tail, hbuf⟩
  have hwhole := (complete_framed (not_mem_beforeStart (buf ++ more)) hraw c0 c1 []).1
  rw [← hpack] at hwhole
  have htrue : hasCompleteBufferedPacket buf = true := by
    rw [hextra]
    exact (complete_iff).mpr ⟨raw, c0, c1, [] ++ extra, hwhole.append extra⟩
  rw [htrue] at hincomplete
  cases hincomplete

theorem reading_length {s raw rest : List UInt8} (h : reading s = .packet raw rest) : rest.length < s.length := by
  obtain ⟨c0, c1, hcomplete, -⟩ := reading_packet h
  have hlen := congrArg List.length hcomplete.split
  simp only [List.length_append, List.length_cons] at hlen
  omega

theorem reading_of_long_start {buf : List UInt8} (h : maxRspPrefixBytes < (beforeStart buf).length)
    (more : List UInt8) : reading (buf ++ more) = .malformed := by
  rw [reading, if_pos (lt_of_lt_of_le h length_beforeStart_append)]

end Emucap.GdbRsp
