import Emucap.Lib.Text
import Mathlib.Tactic.IntervalCases

/-!
# Hexadecimal text

`encodeHex` writes two lowercase digits for each byte; `decodeHex` reads pairs of digits of either case and
refuses an odd number of them. Bytes come back as they were sent (`decodeHex_encodeHex`),
white space around the digits notwithstanding.
-/

namespace Emucap.Lib

def hexDigits (b : UInt8) : List Char := [Nat.digitChar (b.toNat / 16), Nat.digitChar (b.toNat % 16)]

def encodeHex (bytes : List UInt8) : List Char := bytes.flatMap hexDigits

def hexValue (c : Char) : Option ℕ :=
  if 48 ≤ c.toNat ∧ c.toNat ≤ 57 then some (c.toNat - 48)
  else if 97 ≤ c.toNat ∧ c.toNat ≤ 102 then some (c.toNat - 87)
  else if 65 ≤ c.toNat ∧ c.toNat ≤ 70 then some (c.toNat - 55)
  else none

def decodeHex : List Char → Option (List UInt8)
  | [] => some []
  | [_] => none
  | high :: low :: rest => do
    let h ← hexValue high
    let l ← hexValue low
    let bytes ← decodeHex rest
    return UInt8.ofNat (16 * h + l) :: bytes

theorem hexValue_digitChar {d : ℕ} (h : d < 16) : hexValue (Nat.digitChar d) = some d := by
  interval_cases d <;> rfl

theorem isAlphanum_digitChar {d : ℕ} (h : d < 16) : (Nat.digitChar d).isAlphanum = true := by
  interval_cases d <;> rfl

theorem decodeHex_encodeHex (bytes : List UInt8) : decodeHex (encodeHex bytes) = some bytes := by
  induction bytes with
  | nil => rfl
  | cons b bytes ih =>
    have hb : b.toNat < 256 := b.toNat_lt
    have hvalue : 16 * (b.toNat / 16) + b.toNat % 16 = b.toNat := by omega
    show (do
      let h ← hexValue (Nat.digitChar (b.toNat / 16))
      let l ← hexValue (Nat.digitChar (b.toNat % 16))
      let rest ← decodeHex (encodeHex bytes)
      return UInt8.ofNat (16 * h + l) :: rest) = some (b :: bytes)
    rw [hexValue_digitChar (by omega), hexValue_digitChar (by omega), ih]
    simp only [Option.bind_eq_bind, Option.bind_some, hvalue, UInt8.ofNat_toNat]
    rfl

theorem isAlphanum_of_mem_encodeHex {bytes : List UInt8} {c : Char} (h : c ∈ encodeHex bytes) :
    c.isAlphanum = true := by
  obtain ⟨b, -, hc⟩ := List.mem_flatMap.mp h
  have hb : b.toNat < 256 := b.toNat_lt
  rcases List.mem_pair.mp hc with rfl | rfl
  · exact isAlphanum_digitChar (by omega)
  · exact isAlphanum_digitChar (by omega)

theorem trim_encodeHex (bytes : List UInt8) : trim (encodeHex bytes) = encodeHex bytes := by
  refine trim_eq_self ?_ ?_
  · intro c hc
    exact not_isWhitespace_of_isAlphanum (isAlphanum_of_mem_encodeHex (List.mem_of_mem_head? hc))
  · intro c hc
    exact not_isWhitespace_of_isAlphanum (isAlphanum_of_mem_encodeHex (List.mem_of_getLast? hc))

@[simp] theorem length_encodeHex (bytes : List UInt8) : (encodeHex bytes).length = 2 * bytes.length := by
  induction bytes with
  | nil => rfl
  | cons b bytes ih =>
    have hcons : encodeHex (b :: bytes) = hexDigits b ++ encodeHex bytes := rfl
    rw [hcons, List.length_append, ih, List.length_cons]
    show 2 + _ = _
    omega

/-! ## Text -/

/-- A text as the hexadecimal form of its UTF-8 bytes. -/
def encodeHexText (text : List Char) : List Char := encodeHex (utf8 (String.ofList text))

theorem decodeHex_encodeHexText (text : List Char) :
    decodeHex (trim (encodeHexText text)) = some (utf8 (String.ofList text)) := by
  rw [encodeHexText, trim_encodeHex, decodeHex_encodeHex]

end Emucap.Lib
