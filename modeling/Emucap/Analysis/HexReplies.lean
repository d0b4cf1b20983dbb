import Emucap.Lib.Checked
import Emucap.Lib.Hex
import Mathlib.Data.List.Induction

/-!
# Hexadecimal replies

`hex_to_bytes` (`analysis/bisect.rs`) gives pairs of digits to the integer parser, which takes a plus sign before a
digit. The text decodes only where it spells bytes, unless a pair of it is a plus sign and a digit.
-/

namespace Emucap.Analysis.HexReplies

open Emucap.Lib

/-! ## Cuts at byte offsets -/

/-- How many characters stand before a byte offset; none past the end and inside a character. -/
def charsBefore : List Char → ℕ → Option ℕ
  | _, 0 => some 0
  | [], _ + 1 => none
  | c :: cs, i + 1 => if c.utf8Size ≤ i + 1 then (charsBefore cs (i + 1 - c.utf8Size)).map (· + 1) else none

/-- `&s[start..stop]`, and none where it panics. -/
def slice (cs : List Char) (start stop : ℕ) : Option (List Char) := do
  let i ← charsBefore cs start
  let j ← charsBefore cs stop
  return (cs.take j).drop i

/-- `u8::from_str_radix` of two characters: a plus sign may stand for the first. -/
def hexPair (high low : Char) : Option UInt8 := do
  let h ← if high = '+' then some 0 else hexValue high
  let l ← hexValue low
  return UInt8.ofNat (16 * h + l)

/-- The byte of a piece, which has two characters wherever one is cut. -/
def pieceByte : List Char → Option UInt8
  | [high, low] => hexPair high low
  | _ => none

def piecesFrom (cs : List Char) : List ℕ → Option (Except String (List UInt8))
  | [] => some (.ok [])
  | i :: rest => do
    match pieceByte (← slice cs i (i + 2)) with
    | none => return .error "invalid digit found in string"
    | some byte => return (← piecesFrom cs rest).map (byte :: ·)

/-- `hex_to_bytes`, and none where it panics. -/
def hexToBytes (s : String) : Option (Except String (List UInt8)) :=
  let size := (s.toList.map Char.utf8Size).sum
  if ¬ s.toList.all fun c => c.toNat < 128 then some (.error "hex는 ASCII여야")
  else if size % 2 ≠ 0 then some (.error "홀수 길이 hex")
  else piecesFrom s.toList (List.range' 0 (size / 2) 2)

def hexPairs : List Char → Option (List UInt8)
  | high :: low :: rest => do
    let byte ← hexPair high low
    return byte :: (← hexPairs rest)
  | _ => some []

theorem utf8Size_ascii {c : Char} (h : c.toNat < 128) : c.utf8Size = 1 :=
  Char.utf8Size_eq_one_iff.mpr (UInt32.le_iff_toNat_le.mpr (Nat.le_of_lt_succ h))

theorem charsBefore_ascii {cs : List Char} (hascii : ∀ c ∈ cs, c.toNat < 128) {i : ℕ} (hi : i ≤ cs.length) :
    charsBefore cs i = some i := by
  induction cs generalizing i with
  | nil =>
    obtain rfl : i = 0 := by simpa using hi
    rfl
  | cons c cs ih =>
    cases i with
    | zero => rfl
    | succ i =>
      have hrest := ih (fun c hc => hascii c (List.mem_cons_of_mem _ hc)) (Nat.le_of_succ_le_succ hi)
      simp [charsBefore, utf8Size_ascii (hascii c List.mem_cons_self), hrest]

theorem piecesFrom_eq {cs : List Char} (hascii : ∀ c ∈ cs, c.toNat < 128) (k i : ℕ) (hlen : cs.length = i + 2 * k) :
    piecesFrom cs (List.range' i k 2) =
      some (orError "invalid digit found in string" (hexPairs (cs.drop i))) := by
  induction k generalizing i with
  | zero =>
    have hnil : cs.drop i = [] := List.drop_eq_nil_of_le (by omega)
    rw [hnil]
    rfl
  | succ k ih =>
    have hi : i < cs.length := by omega
    have hi' : i + 1 < cs.length := by omega
    have hdrop : cs.drop i = cs[i] :: cs[i + 1] :: cs.drop (i + 2) := by
      rw [List.drop_eq_getElem_cons hi, List.drop_eq_getElem_cons hi']
    have hslice : slice cs i (i + 2) = some [cs[i], cs[i + 1]] := by
      have htake : (cs.take (i + 2)).drop i = [cs[i], cs[i + 1]] := by
        rw [List.drop_take, hdrop, show i + 2 - i = 2 by omega]
        rfl
      simp [slice, charsBefore_ascii hascii (show i ≤ cs.length by omega),
        charsBefore_ascii hascii (show i + 2 ≤ cs.length by omega), htake]
    rw [List.range'_succ, hdrop]
    simp only [piecesFrom, hslice, Option.bind_eq_bind, Option.bind_some, pieceByte, hexPairs, ih (i + 2) (by omega)]
    cases hexPair cs[i] cs[i + 1] with
    | none => rfl
    | some byte =>
      cases hexPairs (cs.drop (i + 2)) with
      | none => rfl
      | some bytes => rfl

/-- No cut of the source fails. -/
theorem hexToBytes_eq (s : String) :
    hexToBytes s = some (do
      require (s.toList.all fun c => c.toNat < 128) "hex는 ASCII여야"
      require (s.toList.length % 2 = 0) "홀수 길이 hex"
      orError "invalid digit found in string" (hexPairs s.toList)) := by
  unfold hexToBytes
  by_cases hall : s.toList.all (fun c => c.toNat < 128) = true
  · have hascii : ∀ c ∈ s.toList, c.toNat < 128 := by simpa using hall
    have hsize : (s.toList.map Char.utf8Size).sum = s.toList.length := by
      rw [List.map_congr_left fun c hc => utf8Size_ascii (hascii c hc)]
      simp
    by_cases heven : s.toList.length % 2 = 0
    · have hpieces := piecesFrom_eq hascii (s.toList.length / 2) 0 (by omega)
      simp only [hall, hsize, heven, require, ↓reduceIte, not_true_eq_false, ne_eq, hpieces, List.drop_zero]
      rfl
    · simp only [hall, hsize, heven, require, ↓reduceIte, not_true_eq_false, ne_eq, not_false_eq_true]
      rfl
  · simp only [hall, require]
    rfl

/-! ## What decodes -/

/-- Pairs of two digits, or of a plus sign and a digit. -/
def Pairs : List Char → Prop
  | [] => True
  | [_] => False
  | high :: low :: rest => (high = '+' ∨ (hexValue high).isSome) ∧ (hexValue low).isSome ∧ Pairs rest

theorem hexPair_isSome (high low : Char) :
    (hexPair high low).isSome ↔ (high = '+' ∨ (hexValue high).isSome) ∧ (hexValue low).isSome := by
  unfold hexPair
  by_cases hplus : high = '+'
  · cases hexValue low <;> simp [hplus]
  · cases hexValue high <;> cases hexValue low <;> simp [hplus]

theorem hexPairs_isSome {cs : List Char} : cs.length % 2 = 0 ∧ (hexPairs cs).isSome ↔ Pairs cs := by
  induction cs using List.twoStepInduction with
  | nil => simp [Pairs, hexPairs]
  | singleton c => simp [Pairs]
  | cons_cons high low rest ih =>
    have hlength : (high :: low :: rest).length % 2 = rest.length % 2 := by simp; omega
    rw [hlength, Pairs, ← ih, ← and_assoc, ← hexPair_isSome, hexPairs]
    cases hexPair high low with
    | none => simp
    | some byte => cases hexPairs rest <;> simp

/-- An even number of hexadecimal digits. -/
def Digits (cs : List Char) : Prop := cs.length % 2 = 0 ∧ ∀ c ∈ cs, (hexValue c).isSome

theorem digits_cons {high low : Char} {rest : List Char} :
    Digits (high :: low :: rest) ↔ (hexValue high).isSome ∧ (hexValue low).isSome ∧ Digits rest := by
  have hlength : (high :: low :: rest).length % 2 = rest.length % 2 := by simp; omega
  simp only [Digits, hlength, List.forall_mem_cons]
  tauto

theorem Digits.pairs {cs : List Char} (h : Digits cs) : Pairs cs := by
  induction cs using List.twoStepInduction with
  | nil => trivial
  | singleton c => exact absurd h.1 (by simp)
  | cons_cons high low rest ih =>
    obtain ⟨hhigh, hlow, hrest⟩ := (digits_cons).mp h
    exact ⟨.inr hhigh, hlow, ih hrest⟩

theorem Pairs.digits {cs : List Char} (h : Pairs cs) (hplus : '+' ∉ cs) : Digits cs := by
  induction cs using List.twoStepInduction with
  | nil => exact ⟨rfl, fun c hc => absurd hc List.not_mem_nil⟩
  | singleton c => exact h.elim
  | cons_cons high low rest ih =>
    simp only [List.mem_cons, not_or] at hplus
    obtain ⟨hhigh, hlow, hrest⟩ := h
    exact (digits_cons).mpr ⟨hhigh.resolve_left (Ne.symm hplus.1), hlow, ih hrest hplus.2.2⟩

theorem hexPairs_eq_decodeHex {cs : List Char} (h : Digits cs) : hexPairs cs = decodeHex cs := by
  induction cs using List.twoStepInduction with
  | nil => rfl
  | singleton c => exact absurd h.1 (by simp)
  | cons_cons high low rest ih =>
    obtain ⟨hhigh, -, hrest⟩ := (digits_cons).mp h
    have hplus : high ≠ '+' := by
      rintro rfl
      exact absurd hhigh (by decide)
    simp only [hexPairs, hexPair, hplus, ↓reduceIte, decodeHex, ih hrest]
    cases hexValue high <;> cases hexValue low <;> rfl

theorem hexValue_spec {c : Char} {d : ℕ} (h : hexValue c = some d) :
    d < 16 ∧ c.toNat < 103 ∧ Nat.digitChar d = c.toLower := by
  have hlt : c.toNat < 103 := by
    unfold hexValue at h
    split_ifs at h <;> omega
  have hall : ∀ n < 103, ∀ d ∈ hexValue (Char.ofNat n), d < 16 ∧ Nat.digitChar d = (Char.ofNat n).toLower := by
    decide +kernel
  obtain ⟨hd, hlower⟩ := hall c.toNat hlt d (by simpa using h)
  exact ⟨hd, hlt, by simpa using hlower⟩

theorem encodeHex_of_decodeHex {cs : List Char} {bytes : List UInt8} (h : decodeHex cs = some bytes) :
    encodeHex bytes = cs.map Char.toLower := by
  induction cs using List.twoStepInduction generalizing bytes with
  | nil =>
    obtain rfl : [] = bytes := by simpa [decodeHex] using h
    rfl
  | singleton c => simp [decodeHex] at h
  | cons_cons high low rest ih =>
    simp only [decodeHex, Option.bind_eq_bind, Option.bind_eq_some_iff] at h
    obtain ⟨x, hx, y, hy, bytes', hrest, hbytes⟩ := h
    obtain rfl : UInt8.ofNat (16 * x + y) :: bytes' = bytes := by simpa using hbytes
    obtain ⟨hx16, -, hhigh⟩ := hexValue_spec hx
    obtain ⟨hy16, -, hlow⟩ := hexValue_spec hy
    have hbyte : (UInt8.ofNat (16 * x + y)).toNat = 16 * x + y := by simp; omega
    show hexDigits _ ++ encodeHex bytes' = _
    rw [ih hrest, hexDigits, hbyte, show (16 * x + y) / 16 = x by omega, show (16 * x + y) % 16 = y by omega, hhigh,
      hlow]
    rfl

theorem Pairs.ascii {cs : List Char} (h : Pairs cs) : ∀ c ∈ cs, c.toNat < 128 := by
  have hvalue : ∀ c, (hexValue c).isSome → c.toNat < 128 := by
    intro c hc
    obtain ⟨d, hd⟩ := Option.isSome_iff_exists.mp hc
    have hlt := (hexValue_spec hd).2.1
    omega
  induction cs using List.twoStepInduction with
  | nil => exact fun c hc => absurd hc List.not_mem_nil
  | singleton c => exact h.elim
  | cons_cons high low rest ih =>
    obtain ⟨hhigh, hlow, hrest⟩ := h
    simp only [List.forall_mem_cons]
    refine ⟨?_, hvalue low hlow, ih hrest⟩
    rcases hhigh with rfl | hhigh
    · decide
    · exact hvalue high hhigh

theorem hexToBytes_eq_ok {s : String} {bytes : List UInt8} :
    hexToBytes s = some (.ok bytes) ↔ Pairs s.toList ∧ hexPairs s.toList = some bytes := by
  rw [hexToBytes_eq, Option.some_inj, require_bind_eq_ok, require_bind_eq_ok, orError_eq_ok]
  constructor
  · rintro ⟨-, heven, hbytes⟩
    exact ⟨(hexPairs_isSome).mp ⟨heven, by rw [hbytes]; rfl⟩, hbytes⟩
  · rintro ⟨hpairs, hbytes⟩
    exact ⟨by simpa using hpairs.ascii, ((hexPairs_isSome).mpr hpairs).1, hbytes⟩

/-! ## The promise of the decoder -/

/-- The text decodes exactly where it is an even number of digits, and its bytes are written with its digits. -/
def Decodes (s : String) : Prop :=
  ((∃ bytes, hexToBytes s = some (.ok bytes)) ↔ Digits s.toList) ∧
    ∀ bytes, hexToBytes s = some (.ok bytes) → encodeHex bytes = s.toList.map Char.toLower

/-- A text of pairs in which a plus sign stands for a digit. -/
def PlusSpelled (s : String) : Prop := Pairs s.toList ∧ '+' ∈ s.toList

theorem decodes_iff (s : String) : Decodes s ↔ ¬ PlusSpelled s := by
  constructor
  · rintro ⟨haccepts, -⟩ ⟨hpairs, hplus⟩
    obtain ⟨bytes, hbytes⟩ := Option.isSome_iff_exists.mp ((hexPairs_isSome).mpr hpairs).2
    have hdigits := haccepts.mp ⟨bytes, (hexToBytes_eq_ok).mpr ⟨hpairs, hbytes⟩⟩
    exact absurd (hdigits.2 _ hplus) (by decide)
  · intro hspelled
    have hdigits : Pairs s.toList → Digits s.toList := fun hpairs => hpairs.digits fun hplus => hspelled ⟨hpairs, hplus⟩
    refine ⟨⟨?_, fun h => ?_⟩, fun bytes h => ?_⟩
    · rintro ⟨bytes, h⟩
      exact hdigits ((hexToBytes_eq_ok).mp h).1
    · obtain ⟨bytes, hbytes⟩ := Option.isSome_iff_exists.mp ((hexPairs_isSome).mpr h.pairs).2
      exact ⟨bytes, (hexToBytes_eq_ok).mpr ⟨h.pairs, hbytes⟩⟩
    · obtain ⟨hpairs, hbytes⟩ := (hexToBytes_eq_ok).mp h
      rw [hexPairs_eq_decodeHex (hdigits hpairs)] at hbytes
      exact encodeHex_of_decodeHex hbytes

theorem digits_encodeHex (bytes : List UInt8) : Digits (encodeHex bytes) := by
  refine ⟨by simp, fun c hc => ?_⟩
  obtain ⟨b, -, hc⟩ := List.mem_flatMap.mp hc
  have hb : b.toNat < 256 := b.toNat_lt
  rcases List.mem_pair.mp hc with rfl | rfl
  · rw [hexValue_digitChar (by omega)]; rfl
  · rw [hexValue_digitChar (by omega)]; rfl

/-- The decoder keeps its promise on every text but the ones spelled with a plus sign; it reads back what
`hex::encode` writes, and it never panics. -/
theorem hexToBytes_decodes (s : String) (bytes : List UInt8) :
    (Decodes s ↔ ¬ PlusSpelled s) ∧
      hexToBytes (String.ofList (encodeHex bytes)) = some (.ok bytes) ∧ (hexToBytes s).isSome := by
  refine ⟨decodes_iff s, (hexToBytes_eq_ok).mpr ?_, by rw [hexToBytes_eq]; rfl⟩
  have hdigits := digits_encodeHex bytes
  rw [String.toList_ofList, hexPairs_eq_decodeHex hdigits]
  exact ⟨hdigits.pairs, decodeHex_encodeHex bytes⟩

/-- `+5` decodes to one byte. -/
theorem plus_digit_decodes : hexToBytes "+5" = some (.ok [5]) ∧ ¬ Digits "+5".toList ∧ ¬ Decodes "+5" := by
  have hdecodes : hexToBytes "+5" = some (.ok [5]) := by decide +kernel
  have hdigits : ¬ Digits "+5".toList := fun h => absurd (h.2 '+' (by decide)) (by decide)
  exact ⟨hdecodes, hdigits, fun h => hdigits (h.1.mp ⟨[5], hdecodes⟩)⟩

end Emucap.Analysis.HexReplies
