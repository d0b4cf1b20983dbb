import Emucap.Lib.Blocks
import Mathlib.Data.UInt

/-!
# Fields of a byte string

The number that bytes spell with the lowest byte first, and the bytes between two places.
-/

namespace Emucap.Lib

/-- The `width` lowest bytes of a number, the lowest first. -/
def littleEndian : ℕ → ℕ → List UInt8
  | 0, _ => []
  | width + 1, n => UInt8.ofNat n :: littleEndian width (n / 256)

@[simp] theorem length_littleEndian (width n : ℕ) : (littleEndian width n).length = width := by
  induction width generalizing n with
  | zero => rfl
  | succ width ih => rw [littleEndian, List.length_cons, ih]

def ofLittleEndian : List UInt8 → ℕ
  | [] => 0
  | byte :: rest => byte.toNat + 256 * ofLittleEndian rest

theorem littleEndian_ofLittleEndian (bytes : List UInt8) :
    littleEndian bytes.length (ofLittleEndian bytes) = bytes := by
  induction bytes with
  | nil => rfl
  | cons byte rest ih =>
    have hbyte := byte.toNat_lt
    have hlow : UInt8.ofNat (ofLittleEndian (byte :: rest)) = byte := by
      apply UInt8.toNat_inj.mp
      rw [UInt8.toNat_ofNat', ofLittleEndian]
      omega
    have hhigh : ofLittleEndian (byte :: rest) / 256 = ofLittleEndian rest := by
      rw [ofLittleEndian]
      omega
    rw [List.length_cons, littleEndian, hlow, hhigh, ih]

theorem ofLittleEndian_littleEndian {width n : ℕ} (h : n < 256 ^ width) : ofLittleEndian (littleEndian width n) = n := by
  induction width generalizing n with
  | zero =>
    rw [Nat.pow_zero] at h
    rw [littleEndian, ofLittleEndian]
    omega
  | succ width ih =>
    rw [Nat.pow_succ] at h
    rw [littleEndian, ofLittleEndian, ih (by omega), UInt8.toNat_ofNat']
    omega

theorem ofLittleEndian_lt (bytes : List UInt8) : ofLittleEndian bytes < 256 ^ bytes.length := by
  induction bytes with
  | nil => simp [ofLittleEndian]
  | cons byte rest ih =>
    have hbyte := byte.toNat_lt
    rw [ofLittleEndian, List.length_cons, Nat.pow_succ]
    omega

def between (bytes : List UInt8) (first last : ℕ) : List UInt8 := (bytes.drop first).take (last - first)

theorem length_between {bytes : List UInt8} {first last : ℕ} (hlast : last ≤ bytes.length) :
    (between bytes first last).length = last - first := by
  rw [between, List.length_take, List.length_drop]
  omega

section
variable (bytes : List UInt8) {first last n : ℕ}

theorem between_zero : between bytes 0 n = bytes.take n := rfl

theorem between_take (h : last ≤ n) : between (bytes.take n) first last = between bytes first last := by
  rw [between, between, List.drop_take, List.take_take, Nat.min_eq_left (by omega)]

theorem between_drop : between (bytes.drop n) first last = between bytes (n + first) (n + last) := by
  rw [between, between, List.drop_drop, Nat.add_sub_add_left]

theorem between_middle {bytes before middle after : List UInt8} (h : bytes = before ++ (middle ++ after))
    (hfirst : before.length = first) (hlast : first + middle.length = last) : between bytes first last = middle := by
  rw [h, between, ← hlast, ← hfirst, Nat.add_sub_cancel_left, List.drop_left, List.take_left]

theorem between_append_between {mid : ℕ} (hfirst : first ≤ mid) (hlast : mid ≤ last) :
    between bytes first mid ++ between bytes mid last = between bytes first last := by
  have hdrop : bytes.drop mid = (bytes.drop first).drop (mid - first) := by
    rw [List.drop_drop, Nat.add_sub_cancel' hfirst]
  rw [between, between, between, hdrop, ← List.take_add, show mid - first + (last - mid) = last - first by omega]

theorem take_append_between (h : first ≤ last) : bytes.take first ++ between bytes first last = bytes.take last := by
  rw [between, ← List.take_add, Nat.add_sub_cancel' h]

end

/-- The number of `width` bytes at `offset`. -/
def field (bytes : List UInt8) (offset width : ℕ) : ℕ := ofLittleEndian (between bytes offset (offset + width))

section
variable (bytes : List UInt8) {offset width n : ℕ}

theorem field_take (h : offset + width ≤ n) : field (bytes.take n) offset width = field bytes offset width := by
  rw [field, field, between_take bytes h]

theorem field_drop : field (bytes.drop n) offset width = field bytes (n + offset) width := by
  rw [field, field, between_drop, Nat.add_assoc]

theorem littleEndian_field (h : offset + width ≤ bytes.length) :
    littleEndian width (field bytes offset width) = between bytes offset (offset + width) := by
  have hspell := littleEndian_ofLittleEndian (between bytes offset (offset + width))
  rwa [length_between h, Nat.add_sub_cancel_left] at hspell

end

theorem field_lt {bytes : List UInt8} {offset width : ℕ} (h : offset + width ≤ bytes.length) :
    field bytes offset width < 256 ^ width := by
  have hlt := ofLittleEndian_lt (between bytes offset (offset + width))
  rwa [length_between h, Nat.add_sub_cancel_left] at hlt

end Emucap.Lib
