import Emucap.Adapters.Common.FrontAuth
import Mathlib.Data.List.GetD
import Mathlib.Tactic.IntervalCases

/-!
# The native SHA-256 is SHA-256

`Transform` is the compression function of the standard. Between two calls of `Update` the object represents the bytes
it was given: the whole blocks are absorbed, the rest lies in the buffer. `Finish` pads in one block or in two.
-/

namespace Emucap.Adapters.FrontAuth

open Emucap.Lib

/-! ## Words -/

theorem rotateRight_eq (v : Word) {c : ℕ} (h : c < 32) : rotateRight v c = v.rotateRight c := by
  rw [BitVec.rotateRight, Nat.mod_eq_of_lt h]
  rfl

theorem loadWord_zero (b₀ b₁ b₂ b₃ : UInt8) (rest : List UInt8) :
    loadWord (b₀ :: b₁ :: b₂ :: b₃ :: rest) 0 = Lib.Sha256.word b₀ b₁ b₂ b₃ := by
  apply BitVec.eq_of_getLsbD_eq
  intro i hi
  simp only [loadWord, Lib.Sha256.word, Nat.zero_mul, Nat.zero_add, List.getD_cons_zero, List.getD_cons_succ,
    BitVec.getLsbD_or, BitVec.getLsbD_shiftLeft, BitVec.getLsbD_setWidth, BitVec.getLsbD_append]
  interval_cases i <;> simp

theorem loadWord_succ (b₀ b₁ b₂ b₃ : UInt8) (rest : List UInt8) (i : ℕ) :
    loadWord (b₀ :: b₁ :: b₂ :: b₃ :: rest) (i + 1) = loadWord rest i := by
  simp only [loadWord, Nat.succ_mul, List.getD_cons_succ]

theorem map_loadWord {n : ℕ} {block : List UInt8} (h : block.length = 4 * n) :
    (List.range n).map (loadWord block) = Lib.Sha256.blockWords block := by
  induction n generalizing block with
  | zero =>
    obtain rfl := List.eq_nil_of_length_eq_zero h
    rfl
  | succ n ih =>
    obtain ⟨b₀, b₁, b₂, b₃, rest, rfl⟩ : ∃ b₀ b₁ b₂ b₃ rest, block = b₀ :: b₁ :: b₂ :: b₃ :: rest := by
      match block, h with
      | b₀ :: b₁ :: b₂ :: b₃ :: rest, _ => exact ⟨b₀, b₁, b₂, b₃, rest, rfl⟩
      | [], h | [_], h | [_, _], h | [_, _, _], h => simp only [List.length_cons, List.length_nil] at h; omega
    have hrest : rest.length = 4 * n := by
      simp only [List.length_cons] at h
      omega
    have hlater : (loadWord (b₀ :: b₁ :: b₂ :: b₃ :: rest)) ∘ Nat.succ = loadWord rest :=
      funext fun i => loadWord_succ b₀ b₁ b₂ b₃ rest i
    rw [List.range_succ_eq_map, List.map_cons, List.map_map, hlater, ih hrest, loadWord_zero]
    rfl

theorem foldl_set_range {α : Type} (f : ℕ → α) {n : ℕ} {buffer : List α} (h : n ≤ buffer.length) :
    (List.range n).foldl (fun xs i => xs.set i (f i)) buffer = (List.range n).map f ++ buffer.drop n := by
  induction n with
  | zero => simp
  | succ n ih =>
    have hlen : ((List.range n).map f).length = n := by simp
    have hset : (buffer.drop n).set 0 (f n) = [f n] ++ buffer.drop (n + 1) := by
      rw [List.drop_eq_getElem_cons (by omega : n < buffer.length), List.set_cons_zero]
      rfl
    rw [List.range_succ, List.foldl_append, ih (by omega), List.map_append, List.foldl_cons, List.foldl_nil,
      List.set_append_right _ _ (by omega), hlen, Nat.sub_self, hset, List.append_assoc]
    rfl

theorem loadWords_eq {block : List UInt8} (h : block.length = 64) :
    loadWords block = Lib.Sha256.blockWords block ++ List.replicate 48 0 := by
  rw [loadWords, foldl_set_range _ (by simp), map_loadWord h]
  rfl

theorem length_blockWords {n : ℕ} {block : List UInt8} (h : block.length = 4 * n) :
    (Lib.Sha256.blockWords block).length = n := by
  rw [← map_loadWord h, List.length_map, List.length_range]

theorem mixWord_append {ws zs : List Word} (h : 16 ≤ ws.length) :
    mixWord (ws ++ zs) ws.length = Lib.Sha256.scheduled ws := by
  have hget (j : ℕ) (hj : 0 < j) : (ws ++ zs).getD (ws.length - j) 0 = ws.getD (ws.length - j) 0 :=
    List.getD_append _ _ _ _ (by omega)
  simp only [mixWord, Lib.Sha256.scheduled, Lib.Sha256.smallSigma0, Lib.Sha256.smallSigma1, hget _ (Nat.succ_pos _),
    rotateRight_eq _ (by decide : 7 < 32), rotateRight_eq _ (by decide : 18 < 32),
    rotateRight_eq _ (by decide : 17 < 32), rotateRight_eq _ (by decide : 19 < 32)]
  ac_rfl

theorem foldl_mixWord (k : ℕ) {ws : List Word} (h : 16 ≤ ws.length) :
    (List.range' ws.length k).foldl (fun words index => words.set index (mixWord words index))
      (ws ++ List.replicate k 0) = Lib.Sha256.extend k ws := by
  induction k generalizing ws with
  | zero => simp [Lib.Sha256.extend]
  | succ k ih =>
    have hset : (ws ++ List.replicate (k + 1) 0).set ws.length (Lib.Sha256.scheduled ws)
        = (ws ++ [Lib.Sha256.scheduled ws]) ++ List.replicate k 0 := by
      rw [List.set_append_right _ _ (Nat.le_refl _), Nat.sub_self, List.replicate_succ, List.set_cons_zero,
        List.append_assoc]
      rfl
    have hlen : (ws ++ [Lib.Sha256.scheduled ws]).length = ws.length + 1 := by simp
    rw [List.range'_succ, List.foldl_cons, mixWord_append h, hset, ← hlen, ih (by omega)]
    rfl

theorem mixWords_loadWords {block : List UInt8} (h : block.length = 64) :
    mixWords (loadWords block) = Lib.Sha256.schedule block := by
  have hlen : (Lib.Sha256.blockWords block).length = 16 := length_blockWords h
  rw [mixWords, loadWords_eq h, ← hlen, foldl_mixWord 48 (by omega)]
  rfl

theorem length_extend (k : ℕ) (ws : List Word) : (Lib.Sha256.extend k ws).length = ws.length + k := by
  induction k generalizing ws with
  | zero => rfl
  | succ k ih =>
    rw [Lib.Sha256.extend, ih, List.length_append, List.length_singleton]
    omega

/-! ## One block -/

def Locals.vars (v : Locals) : Lib.Sha256.Vars := ⟨v.a, v.b, v.c, v.d, v.e, v.f, v.g, v.h⟩

theorem Locals.vars_round (v : Locals) (k w : Word) : (v.round k w).vars = Lib.Sha256.round v.vars k w := by
  simp only [Locals.round, Locals.vars, Lib.Sha256.round, Lib.Sha256.bigSigma0, Lib.Sha256.bigSigma1,
    Lib.Sha256.choose, Lib.Sha256.majority, rotateRight_eq _ (by decide : 2 < 32),
    rotateRight_eq _ (by decide : 13 < 32), rotateRight_eq _ (by decide : 22 < 32),
    rotateRight_eq _ (by decide : 6 < 32), rotateRight_eq _ (by decide : 11 < 32),
    rotateRight_eq _ (by decide : 25 < 32)]

theorem vars_foldl_round {ks ws : List Word} (h : ks.length = ws.length) (v : Locals) :
    ((List.range ks.length).foldl (fun v i => v.round (ks.getD i 0) (ws.getD i 0)) v).vars
      = (ks.zip ws).foldl (fun v kw => Lib.Sha256.round v kw.1 kw.2) v.vars := by
  induction ks generalizing ws v with
  | nil => rfl
  | cons k ks ih =>
    cases ws with
    | nil => simp at h
    | cons w ws =>
      simp only [List.length_cons, Nat.add_right_cancel_iff] at h
      rw [List.length_cons, List.range_succ_eq_map, List.foldl_cons, List.foldl_map, List.zip_cons_cons,
        List.foldl_cons, ← Locals.vars_round, ← ih h]
      rfl

theorem varsOf_transform (state : Vector Word 8) {block : List UInt8} (h : block.length = 64) :
    varsOf (transform state block) = Lib.Sha256.compress (varsOf state) block := by
  have hlen : constants.length = (Lib.Sha256.schedule block).length := by
    rw [Lib.Sha256.schedule, length_extend, (length_blockWords h : _ = 16)]
    rfl
  obtain ⟨v, hv⟩ : ∃ v : Locals,
      v = ⟨state[0], state[1], state[2], state[3], state[4], state[5], state[6], state[7]⟩ := ⟨_, rfl⟩
  have hvars : varsOf state = v.vars := by
    rw [hv]
    rfl
  have hrounds : (Lib.Sha256.constants.zip (Lib.Sha256.schedule block)).foldl
      (fun v kw => Lib.Sha256.round v kw.1 kw.2) v.vars = _ := (vars_foldl_round hlen v).symm
  rw [Lib.Sha256.compress, hvars, hrounds, ← hvars]
  simp only [transform, mixWords_loadWords h, ← hv]
  rfl

/-! ## The bytes an object stands for -/

/-- `hash` was given the bytes of `message`. -/
structure Represents (hash : Sha256) (message : List UInt8) : Prop where
  state : varsOf hash.state = absorb 64 Lib.Sha256.compress Lib.Sha256.initial message
  buffered : hash.block.take hash.used = remainder 64 message
  total : hash.total = BitVec.ofNat 64 message.length

theorem Represents.used_eq {hash : Sha256} {message : List UInt8} (h : Represents hash message) :
    hash.used = message.length % 64 := by
  have hlen := congrArg List.length h.buffered
  have hused := hash.used_lt
  rw [length_remainder, List.length_take, hash.block_length] at hlen
  omega

theorem new_represents : Represents Sha256.new [] := ⟨rfl, rfl, rfl⟩

theorem Represents.pass {hash : Sha256} {message bytes : List UInt8} (h : Represents hash message)
    (hfits : hash.used + bytes.length ≤ 64) : Represents (hash.pass bytes hfits) (message ++ bytes) := by
  have hcopied : (overwrite hash.block hash.used bytes).take (hash.used + bytes.length)
      = remainder 64 message ++ bytes := by
    rw [take_overwrite (by rw [hash.block_length]; omega), h.buffered]
  have hlen : (remainder 64 message ++ bytes).length = hash.used + bytes.length := by
    rw [List.length_append, length_remainder, ← h.used_eq]
  have htotal : hash.total + BitVec.ofNat 64 bytes.length = BitVec.ofNat 64 (message ++ bytes).length := by
    rw [h.total, List.length_append, BitVec.ofNat_add]
  obtain ⟨habsorb, hrest⟩ := absorb_append (by decide : 0 < 64) Lib.Sha256.compress message bytes Lib.Sha256.initial
  unfold Sha256.pass
  split_ifs with hfull
  · have hwhole : overwrite hash.block hash.used bytes = remainder 64 message ++ bytes := by
      rw [← hcopied, hfull, List.take_of_length_le]
      rw [length_overwrite (by rw [hash.block_length]; exact hfits), hash.block_length]
    have hblock : (remainder 64 message ++ bytes).length = 64 := hlen.trans hfull
    refine ⟨?_, ?_, htotal⟩
    · show varsOf (transform hash.state (overwrite hash.block hash.used bytes)) = _
      rw [hwhole, varsOf_transform _ hblock, h.state, habsorb, absorb_one (by decide) hblock]
    · rw [hrest, remainder_one (by decide) hblock]
      rfl
  · have hshort : (remainder 64 message ++ bytes).length < 64 := by omega
    refine ⟨?_, ?_, htotal⟩
    · rw [habsorb, absorb_of_lt hshort]
      exact h.state
    · rw [hrest, remainder_of_lt hshort]
      exact hcopied

theorem Represents.update {hash : Sha256} {message bytes : List UInt8} (h : Represents hash message) :
    Represents (hash.update bytes) (message ++ bytes) := by
  fun_induction Sha256.update hash bytes generalizing message with
  | case1 hash =>
    rw [List.append_nil]
    exact h
  | case2 hash bytes hne ih =>
    have hnext := ih (h.pass (hash.length_take_le bytes))
    rwa [List.append_assoc, List.take_append_drop] at hnext

/-! ## The last blocks -/

theorem toByte_shift {w : ℕ} (x : BitVec w) (k : ℕ) :
    toByte (x >>> k) = UInt8.ofBitVec (x.extractLsb' k 8) := by
  unfold toByte
  congr 1
  apply BitVec.eq_of_getLsbD_eq
  intro i hi
  simp [BitVec.getLsbD_setWidth, BitVec.getLsbD_extractLsb', BitVec.getLsbD_ushiftRight]

theorem toList_eq (state : Vector Word 8) : state.toList = [(varsOf state).a, (varsOf state).b, (varsOf state).c,
    (varsOf state).d, (varsOf state).e, (varsOf state).f, (varsOf state).g, (varsOf state).h] := by
  rcases state with ⟨⟨words⟩, hlen⟩
  match words, hlen with
  | [a, b, c, d, e, f, g, h], _ => rfl

theorem digest_eq (state : Vector Word 8) :
    (state.toList.flatMap fun (word : Word) => (List.range 4).map fun byte => toByte (word >>> (24 - byte * 8)))
      = Lib.Sha256.digest (varsOf state) := by
  simp only [toList_eq, Lib.Sha256.digest, toByte_shift]
  rfl

theorem foldl_set_last (bits : BitVec 64) {block : List UInt8} (h : block.length = 64) :
    (List.range 8).foldl (fun block index => block.set (63 - index) (toByte (bits >>> (index * 8)))) block
      = block.take 56 ++ Lib.Sha256.bigEndian 8 bits := by
  obtain ⟨front, last, hfront, hlast, rfl⟩ : ∃ front last : List UInt8,
      front.length = 56 ∧ last.length = 8 ∧ block = front ++ last :=
    ⟨block.take 56, block.drop 56, by simp [h], by simp [h], by simp⟩
  match last, hlast with
  | [a, b, c, d, e, f, g, h], _ =>
    rw [← hfront, List.take_left]
    simp [List.range, List.range.loop, hfront, toByte_shift, Lib.Sha256.bigEndian]

theorem zeros_of_lt {length : ℕ} (h : length % 64 < 56) : Lib.Sha256.zeros length = 55 - length % 64 := by
  unfold Lib.Sha256.zeros
  omega

theorem zeros_of_ge {length : ℕ} (h : 56 ≤ length % 64) :
    Lib.Sha256.zeros length = (63 - length % 64) + 56 := by
  unfold Lib.Sha256.zeros
  omega

theorem take_marked {hash : Sha256} {message : List UInt8} (h : Represents hash message) :
    (hash.block.set hash.used 0x80).take (hash.used + 1) = remainder 64 message ++ [0x80] := by
  have hused : hash.used < hash.block.length := by rw [hash.block_length]; exact hash.used_lt
  have hlen : (hash.block.take hash.used).length = hash.used := by
    rw [List.length_take]
    omega
  rw [List.set_eq_take_append_cons_drop, if_pos hused, ← h.buffered, List.take_append, hlen,
    List.take_of_length_le (by omega)]
  simp

theorem take_memset {block front : List UInt8} {used n : ℕ} (hlen : n ≤ block.length) (hused : used ≤ n)
    (hfront : block.take used = front) :
    (overwrite block used (List.replicate (n - used) 0)).take n = front ++ List.replicate (n - used) 0 := by
  have hto : used + (List.replicate (n - used) (0 : UInt8)).length = n := by
    rw [List.length_replicate]
    omega
  have htake : (overwrite block used (List.replicate (n - used) 0)).take _ = _ :=
    take_overwrite (by omega)
  rwa [hto, hfront] at htake

theorem length_memset {block : List UInt8} {used n : ℕ} (hlen : block.length = 64) (hn : n ≤ 64) (hused : used ≤ n) :
    (overwrite block used (List.replicate (n - used) 0)).length = 64 := by
  rw [length_overwrite, hlen]
  rw [List.length_replicate]
  omega

theorem Represents.finish {hash : Sha256} {message : List UInt8} (h : Represents hash message) :
    hash.finish = Lib.Sha256.sha256 message := by
  have hused := h.used_eq
  have hlt := hash.used_lt
  have hlen : (hash.block.set hash.used 0x80).length = 64 := by rw [List.length_set, hash.block_length]
  have hbuffered : (remainder 64 message).length = message.length % 64 := length_remainder message
  have hbits : hash.total * 8 = BitVec.ofNat 64 (8 * message.length) := by
    rw [h.total, Nat.mul_comm, BitVec.ofNat_mul]
    rfl
  obtain ⟨habsorb, -⟩ := absorb_append (by decide : 0 < 64) Lib.Sha256.compress message
    (Lib.Sha256.padding message.length) Lib.Sha256.initial
  rw [Lib.Sha256.sha256, habsorb, ← h.state]
  unfold Sha256.finish
  by_cases htwo : hash.used + 1 > 56
  · -- The marker leaves no room for the length: one block of zeros more.
    have hfirst : overwrite (hash.block.set hash.used 0x80) (hash.used + 1) (List.replicate (64 - (hash.used + 1)) 0)
        = remainder 64 message ++ [0x80] ++ List.replicate (64 - (hash.used + 1)) 0 := by
      rw [← take_memset (by omega) (by omega) (take_marked h), List.take_of_length_le]
      rw [length_memset hlen (by omega) (by omega)]
    have hfull : (remainder 64 message ++ [0x80] ++ List.replicate (64 - (hash.used + 1)) 0).length = 64 := by
      simp only [List.length_append, List.length_singleton, List.length_replicate]
      omega
    have hpadding : remainder 64 message ++ Lib.Sha256.padding message.length
        = (remainder 64 message ++ [0x80] ++ List.replicate (64 - (hash.used + 1)) 0) ++
          (List.replicate 56 0 ++ Lib.Sha256.bigEndian 8 (BitVec.ofNat 64 (8 * message.length))) := by
      rw [Lib.Sha256.padding, zeros_of_ge (by omega), ← List.replicate_append_replicate]
      simp only [List.append_assoc]
      congr 4
      omega
    have hsecond : (overwrite (remainder 64 message ++ [0x80] ++ List.replicate (64 - (hash.used + 1)) 0) 0
        (List.replicate (56 - 0) 0)).take 56 = [] ++ List.replicate (56 - 0) 0 :=
      take_memset (by omega) (Nat.zero_le _) rfl
    simp only [if_pos htwo, digest_eq, hfirst, hbits]
    rw [foldl_set_last _ (length_memset hfull (by decide) (Nat.zero_le _)), hsecond, hpadding,
      absorb_block (by decide) hfull, absorb_one (by decide) (by simp), varsOf_transform _ (by simp),
      varsOf_transform _ hfull]
    rfl
  · have hpadding : remainder 64 message ++ Lib.Sha256.padding message.length
        = (remainder 64 message ++ [0x80] ++ List.replicate (56 - (hash.used + 1)) 0) ++
          Lib.Sha256.bigEndian 8 (BitVec.ofNat 64 (8 * message.length)) := by
      rw [Lib.Sha256.padding, zeros_of_lt (by omega)]
      simp only [List.append_assoc]
      congr 4
      omega
    have hfull : ((remainder 64 message ++ [0x80] ++ List.replicate (56 - (hash.used + 1)) 0) ++
        Lib.Sha256.bigEndian 8 (BitVec.ofNat 64 (8 * message.length))).length = 64 := by
      simp only [List.length_append, List.length_singleton, List.length_replicate, Lib.Sha256.length_bigEndian]
      omega
    simp only [if_neg htwo, digest_eq, hbits]
    rw [foldl_set_last _ (length_memset hlen (by decide) (by omega)),
      take_memset (by omega) (by omega) (take_marked h), hpadding, absorb_one (by decide) hfull,
      varsOf_transform _ hfull]

theorem finish_updates (parts : List (List UInt8)) :
    (parts.foldl Sha256.update Sha256.new).finish = Lib.Sha256.sha256 parts.flatten := by
  have hgiven (hash : Sha256) (message : List UInt8) (h : Represents hash message) :
      Represents (parts.foldl Sha256.update hash) (message ++ parts.flatten) := by
    induction parts generalizing hash message with
    | nil =>
      rw [List.flatten_nil, List.append_nil]
      exact h
    | cons part parts ih =>
      rw [List.flatten_cons, ← List.append_assoc]
      exact ih _ _ h.update
  exact (hgiven Sha256.new [] new_represents).finish

end Emucap.Adapters.FrontAuth
