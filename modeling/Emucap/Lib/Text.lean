import Mathlib.Data.List.DropRight
import Mathlib.Data.Nat.Notation
import Mathlib.Order.Basic

/-!
# Text as a list of characters

The parts of `str` the code relies on, on the characters of a string: what counts as white space, `trim`,
the lines of a text, decimal numerals, and the UTF-8 form of a string. A numeral is the decimal form of its
value exactly where it is not padded with zeros.
-/

namespace Emucap.Lib

def isWhitespace (c : Char) : Bool :=
  (9 ≤ c.toNat && c.toNat ≤ 13) || c.toNat == 0x20 || c.toNat == 0x85 || c.toNat == 0xA0 ||
    c.toNat == 0x1680 || (0x2000 ≤ c.toNat && c.toNat ≤ 0x200A) || c.toNat == 0x2028 ||
    c.toNat == 0x2029 || c.toNat == 0x202F || c.toNat == 0x205F || c.toNat == 0x3000

def trimStart (cs : List Char) : List Char := cs.dropWhile isWhitespace

def trimEnd (cs : List Char) : List Char := cs.rdropWhile isWhitespace

def trim (cs : List Char) : List Char := (cs.dropWhile isWhitespace).rdropWhile isWhitespace

/-- Equality of texts, by name: `∈` on lists of texts is decided with it. -/
instance instLawfulBEqChars : LawfulBEq (List Char) := List.instLawfulBEq

theorem trim_eq_self {cs : List Char} (hhead : ∀ c ∈ cs.head?, isWhitespace c = false)
    (hlast : ∀ c ∈ cs.getLast?, isWhitespace c = false) : trim cs = cs := by
  have hdrop : cs.dropWhile isWhitespace = cs := by
    cases cs with
    | nil => rfl
    | cons c rest => simp [hhead c (by simp)]
  rw [trim, hdrop, List.rdropWhile_eq_self_iff]
  intro hne
  have hlast := hlast (cs.getLast hne) (by rw [List.getLast?_eq_some_getLast hne]; rfl)
  simp [hlast]

theorem isAlphanum_iff {c : Char} : c.isAlphanum = true ↔
    ((65 ≤ c.toNat ∧ c.toNat ≤ 90) ∨ (97 ≤ c.toNat ∧ c.toNat ≤ 122)) ∨ (48 ≤ c.toNat ∧ c.toNat ≤ 57) := by
  show ((decide (65 ≤ c.val ∧ c.val ≤ 90) || (decide (97 ≤ c.val) && decide (c.val ≤ 122))) ||
    (decide (48 ≤ c.val) && decide (c.val ≤ 57))) = true ↔ _
  simp only [Bool.or_eq_true, Bool.and_eq_true, decide_eq_true_eq, UInt32.le_iff_toNat_le]
  exact Iff.rfl

theorem toNat_of_isAlphanum {c : Char} (h : c.isAlphanum = true) :
    ((65 ≤ c.toNat ∧ c.toNat ≤ 90) ∨ (97 ≤ c.toNat ∧ c.toNat ≤ 122)) ∨ (48 ≤ c.toNat ∧ c.toNat ≤ 57) :=
  isAlphanum_iff.mp h

theorem not_isWhitespace_of_isAlphanum {c : Char} (h : c.isAlphanum = true) : isWhitespace c = false := by
  have hcode := toNat_of_isAlphanum h
  simp only [isWhitespace, Bool.or_eq_false_iff, Bool.and_eq_false_iff, decide_eq_false_iff_not,
    beq_eq_false_iff_ne]
  omega

/-! ## Splitting at a character -/

theorem eq_append_of_dropWhile_ne {sep c : Char} {text rest : List Char}
    (h : text.dropWhile (· != sep) = c :: rest) : text = text.takeWhile (· != sep) ++ sep :: rest := by
  have hhead := List.head?_dropWhile_not (· != sep) text
  rw [h] at hhead
  have hc : c = sep := by simpa using hhead
  rw [← hc, ← h, hc, List.takeWhile_append_dropWhile]

theorem takeWhile_ne_append {α : Type} [BEq α] [LawfulBEq α] {sep : α} {before after : List α} (h : sep ∉ before) :
    (before ++ sep :: after).takeWhile (· != sep) = before := by
  have hne : ∀ c ∈ before, (c != sep) = true := fun c hc => by
    rw [bne_iff_ne]
    rintro rfl
    exact h hc
  rw [List.takeWhile_append_of_pos hne]
  simp

theorem dropWhile_ne_append {α : Type} [BEq α] [LawfulBEq α] {sep : α} {before after : List α} (h : sep ∉ before) :
    (before ++ sep :: after).dropWhile (· != sep) = sep :: after := by
  have hne : ∀ c ∈ before, (c != sep) = true := fun c hc => by
    rw [bne_iff_ne]
    rintro rfl
    exact h hc
  rw [List.dropWhile_append_of_pos hne]
  simp

theorem append_cons_inj {α : Type} [BEq α] [LawfulBEq α] {sep : α} {before before' after after' : List α}
    (h : before ++ sep :: after = before' ++ sep :: after') (hbefore : sep ∉ before) (hbefore' : sep ∉ before') :
    before = before' ∧ after = after' := by
  have hfirst := congrArg (List.takeWhile (· != sep)) h
  rw [takeWhile_ne_append hbefore, takeWhile_ne_append hbefore'] at hfirst
  have hsecond := congrArg (List.dropWhile (· != sep)) h
  rw [dropWhile_ne_append hbefore, dropWhile_ne_append hbefore'] at hsecond
  exact ⟨hfirst, List.tail_eq_of_cons_eq hsecond⟩

/-! ## Lines -/

def unlines (ls : List (List Char)) : List Char := ls.flatMap (· ++ ['\n'])

@[simp] theorem unlines_nil : unlines [] = [] := rfl

@[simp] theorem unlines_cons (l : List Char) (ls : List (List Char)) :
    unlines (l :: ls) = l ++ '\n' :: unlines ls := by
  simp [unlines]

theorem getLast?_unlines {ls : List (List Char)} (h : ls ≠ []) : (unlines ls).getLast? = some '\n' := by
  induction ls with
  | nil => exact absurd rfl h
  | cons l ls ih =>
    rw [unlines_cons, List.getLast?_append_cons, List.getLast?_cons]
    cases ls with
    | nil => rfl
    | cons l' ls => rw [ih (by simp), Option.getD_some]

def terminatedLines (text : List Char) : List (List Char) := (text.splitOn '\n').dropLast

theorem splitOn_unlines_append {ls : List (List Char)} (hls : ∀ l ∈ ls, '\n' ∉ l) {tail : List Char}
    (htail : '\n' ∉ tail) : (unlines ls ++ tail).splitOn '\n' = ls ++ [tail] := by
  induction ls with
  | nil => simpa using List.splitOn_eq_singleton htail
  | cons l ls ih =>
    rw [unlines_cons, List.append_assoc, List.cons_append,
      List.splitOn_append_cons_self_of_not_mem (hls l (by simp)), ih fun l hl => hls l (by simp [hl])]
    rfl

theorem terminatedLines_unlines_append {ls : List (List Char)} (hls : ∀ l ∈ ls, '\n' ∉ l) {tail : List Char}
    (htail : '\n' ∉ tail) : terminatedLines (unlines ls ++ tail) = ls := by
  rw [terminatedLines, splitOn_unlines_append hls htail, List.dropLast_concat]

theorem terminatedLines_unlines {ls : List (List Char)} (hls : ∀ l ∈ ls, '\n' ∉ l) :
    terminatedLines (unlines ls) = ls := by
  have h := terminatedLines_unlines_append hls (show '\n' ∉ ([] : List Char) by simp)
  rwa [List.append_nil] at h

def lastLine (text : List Char) : List Char := (text.splitOn '\n').getLastD []

theorem lastLine_unlines_append {ls : List (List Char)} (hls : ∀ l ∈ ls, '\n' ∉ l) {tail : List Char}
    (htail : '\n' ∉ tail) : lastLine (unlines ls ++ tail) = tail := by
  rw [lastLine, splitOn_unlines_append hls htail, List.getLastD_concat]

theorem exists_unlines_append (text : List Char) :
    ∃ ls tail, (∀ l ∈ ls, '\n' ∉ l) ∧ '\n' ∉ tail ∧ text = unlines ls ++ tail := by
  induction text with
  | nil => exact ⟨[], [], by simp, by simp, rfl⟩
  | cons c text ih =>
    obtain ⟨ls, tail, hls, htail, rfl⟩ := ih
    by_cases hc : c = '\n'
    · exact ⟨[] :: ls, tail, by simpa using hls, htail, by simp [hc]⟩
    · cases ls with
      | nil => exact ⟨[], c :: tail, by simp, by simp [htail, Ne.symm hc], rfl⟩
      | cons l ls =>
        have hl := hls l (by simp)
        refine ⟨(c :: l) :: ls, tail, ?_, htail, by simp⟩
        intro l' hl'
        rcases List.mem_cons.mp hl' with rfl | hmem
        · simp [hl, Ne.symm hc]
        · exact hls l' (by simp [hmem])

theorem exists_unlines_of_getLast? {text : List Char} (h : text.getLast? = some '\n') :
    ∃ ls, (∀ l ∈ ls, '\n' ∉ l) ∧ text = unlines ls := by
  obtain ⟨ls, tail, hls, htail, rfl⟩ := exists_unlines_append text
  cases tail with
  | nil => exact ⟨ls, hls, by simp⟩
  | cons c tail =>
    rw [List.getLast?_append_cons] at h
    exact absurd (List.mem_of_getLast? h) htail

/-- `str::lines`: a final newline starts no further line, and a line that a newline ends loses one carriage
return before it. -/
def lines (text : List Char) : List (List Char) :=
  (terminatedLines text).map (fun l => if l.getLast? = some '\r' then l.dropLast else l) ++
    (if lastLine text = [] then [] else [lastLine text])

theorem mem_intercalate {sep c : Char} {ls : List (List Char)} (h : c ∈ [sep].intercalate ls) :
    c = sep ∨ ∃ l ∈ ls, c ∈ l := by
  induction ls with
  | nil => simp at h
  | cons l ls ih =>
    by_cases hls : ls = []
    · subst hls
      rw [List.intercalate_singleton] at h
      exact .inr ⟨l, List.mem_cons_self, h⟩
    · rw [List.intercalate_cons_of_ne_nil hls, List.mem_append, List.mem_append, List.mem_singleton] at h
      rcases h with (hl | hsep) | hrest
      · exact .inr ⟨l, List.mem_cons_self, hl⟩
      · exact .inl hsep
      · obtain hsep | ⟨l', hl', hc⟩ := ih hrest
        · exact .inl hsep
        · exact .inr ⟨l', List.mem_cons_of_mem l hl', hc⟩

theorem lines_intercalate {ls : List (List Char)}
    (h : ∀ l ∈ ls, '\n' ∉ l ∧ l ≠ [] ∧ l.getLast? ≠ some '\r') : lines (['\n'].intercalate ls) = ls := by
  by_cases hls : ls = []
  · rw [hls]
    decide
  have hsplit : (['\n'].intercalate ls).splitOn '\n' = ls :=
    List.splitOn_intercalate '\n' (fun l hl => (h l hl).1) hls
  have hlast : ls.getLastD [] = ls.getLast hls := by
    rw [List.getLastD_eq_getLast?, List.getLast?_eq_some_getLast hls, Option.getD_some]
  have hstrip : ls.dropLast.map (fun l => if l.getLast? = some '\r' then l.dropLast else l) = ls.dropLast := by
    conv_rhs => rw [← List.map_id ls.dropLast]
    refine List.map_congr_left fun l hl => ?_
    rw [if_neg (h l ((List.dropLast_sublist ls).subset hl)).2.2, id]
  unfold lines terminatedLines lastLine
  rw [hsplit, hstrip, hlast, if_neg (h _ (List.getLast_mem hls)).2.1, List.dropLast_concat_getLast]

/-! ## Decimal numerals -/

theorem digitChar_of_isDigit {c : Char} (h : c.isDigit = true) : Nat.digitChar (c.toNat - 48) = c := by
  have hcode : 48 ≤ c.toNat ∧ c.toNat ≤ 57 := by
    simpa [Char.isDigit, UInt32.le_iff_toNat_le] using h
  apply Char.toNat_inj.mp
  rw [Nat.toNat_digitChar_of_lt_ten (by omega)]
  omega

theorem toDigits_append_digits {ds : List Char} (hds : ∀ c ∈ ds, c.isDigit = true) {n : ℕ} (hn : 0 < n) :
    Nat.toDigits 10 n ++ ds = Nat.toDigits 10 (Nat.ofDigitChars 10 ds n) := by
  induction ds generalizing n with
  | nil => simp
  | cons c ds ih =>
    have hc := hds c (by simp)
    have hlt : c.toNat - 48 < 10 := by
      have hcode : 48 ≤ c.toNat ∧ c.toNat ≤ 57 := by
        simpa [Char.isDigit, UInt32.le_iff_toNat_le] using hc
      omega
    have hnext := ih (fun c hc => hds c (by simp [hc])) (show 0 < 10 * n + (c.toNat - 48) by omega)
    have happend := Nat.toDigits_append_toDigits (show 1 < 10 by decide) hn hlt
    rw [Nat.toDigits_of_lt_base hlt, digitChar_of_isDigit hc] at happend
    calc Nat.toDigits 10 n ++ c :: ds
        = Nat.toDigits 10 n ++ [c] ++ ds := by simp
      _ = Nat.toDigits 10 (Nat.ofDigitChars 10 (c :: ds) n) := by
        rw [happend, hnext]
        rfl

theorem toDigits_ofDigitChars {ds : List Char} (hne : ds ≠ []) (hds : ∀ c ∈ ds, c.isDigit = true)
    (hpad : ds.head? = some '0' → ds.length = 1) : Nat.toDigits 10 (Nat.ofDigitChars 10 ds 0) = ds := by
  cases ds with
  | nil => exact absurd rfl hne
  | cons c ds =>
    have hc := hds c (by simp)
    have hcode : 48 ≤ c.toNat ∧ c.toNat ≤ 57 := by
      simpa [Char.isDigit, UInt32.le_iff_toNat_le] using hc
    by_cases hzero : c = '0'
    · subst hzero
      have hnil : ds = [] := by simpa using hpad (by simp)
      subst hnil
      rfl
    · have hpos : 0 < c.toNat - 48 := by
        have : c.toNat ≠ 48 := fun h => hzero (Char.toNat_inj.mp h)
        omega
      have hrest : ∀ d ∈ ds, d.isDigit = true := fun d hd => hds d (by simp [hd])
      have happend := toDigits_append_digits hrest hpos
      rw [Nat.toDigits_of_lt_base (by omega), digitChar_of_isDigit hc] at happend
      simpa [Nat.ofDigitChars_cons] using happend.symm

theorem length_toDigits_of_head_zero {n : ℕ} (h : (Nat.toDigits 10 n).head? = some '0') :
    (Nat.toDigits 10 n).length = 1 := by
  induction n using Nat.strong_induction_on with
  | _ n ih =>
    by_cases hlt : n < 10
    · rw [Nat.toDigits_of_lt_base hlt]
      rfl
    · rw [Nat.toDigits_of_base_le (by decide) (by omega)] at h
      have hhead : (Nat.toDigits 10 (n / 10)).head? = some '0' := by
        rwa [List.head?_append_of_ne_nil _ Nat.toDigits_ne_nil] at h
      have hshort := ih (n / 10) (by omega) hhead
      -- the leading digits would be a lone zero, so there are none
      have hzero : Nat.toDigits 10 (n / 10) = ['0'] := by
        obtain ⟨c, hc⟩ := List.length_eq_one_iff.mp hshort
        rw [hc] at hhead ⊢
        simpa using hhead
      have hvalue : n / 10 = 0 := by
        rw [← Nat.ofDigitChars_ten_toDigits (n := n / 10), hzero]
        rfl
      omega

/-! ## UTF-8 -/

def utf8 (text : String) : List UInt8 := text.toByteArray.data.toList

def fromUtf8 (bytes : List UInt8) : Option String := String.fromUTF8? bytes.toByteArray

theorem fromUtf8_utf8 (text : String) : fromUtf8 (utf8 text) = some text := by
  have hbytes : (utf8 text).toByteArray = text.toByteArray := by
    apply ByteArray.ext
    rw [List.data_toByteArray, utf8, Array.toArray_toList]
  rw [fromUtf8, hbytes, String.fromUTF8?, dif_pos text.isValidUTF8]
  rfl

theorem utf8_ofList (cs : List Char) : utf8 (String.ofList cs) = cs.flatMap String.utf8EncodeChar := by
  rw [utf8, String.toByteArray_ofList, List.utf8Encode]
  simp

theorem byteArray_toList_loop (bytes : ByteArray) (i : ℕ) (read : List UInt8) :
    ByteArray.toList.loop bytes i read = read.reverse ++ bytes.data.toList.drop i := by
  fun_induction ByteArray.toList.loop bytes i read with
  | case1 i read hi ih =>
    have hget : bytes.data.toList.drop i = bytes.get! i :: bytes.data.toList.drop (i + 1) := by
      have hi' : i < bytes.data.toList.length := by simpa using hi
      rw [List.drop_eq_getElem_cons hi']
      have hi'' : i < bytes.data.size := by simpa using hi
      exact congrArg (· :: _) (getElem!_pos bytes.data i hi'').symm
    rw [ih, hget, List.reverse_cons, List.append_assoc, List.singleton_append]
  | case2 i read hi =>
    have hlength : bytes.data.toList.length ≤ i := by simpa using hi
    rw [List.drop_eq_nil_of_le hlength, List.append_nil]

/-- The bytes of two pieces of ASCII text. -/
theorem toUTF8_ascii {a b : List Char} (h : (a ++ b).all (fun c => c.toNat < 128) = true) :
    (String.ofList a ++ String.ofList b).toUTF8.toList = (a ++ b).map fun c => UInt8.ofNat c.toNat := by
  have hencode : ∀ cs : List Char, cs.all (fun c => c.toNat < 128) = true →
      cs.flatMap String.utf8EncodeChar = cs.map fun c => UInt8.ofNat c.toNat := by
    intro cs hcs
    induction cs with
    | nil => rfl
    | cons c cs ih =>
      rw [List.all_cons, Bool.and_eq_true] at hcs
      have hc : c.val.toNat ≤ 127 := Nat.le_of_lt_succ (of_decide_eq_true hcs.1)
      rw [List.flatMap_cons, ih hcs.2, List.map_cons, String.utf8EncodeChar, if_pos hc]
      rfl
  rw [← String.ofList_append, ByteArray.toList, byteArray_toList_loop, List.reverse_nil, List.nil_append,
    List.drop_zero, ← hencode _ h]
  exact utf8_ofList _

theorem length_utf8_bounds (cs : List Char) :
    cs.length ≤ (utf8 (String.ofList cs)).length ∧ (utf8 (String.ofList cs)).length ≤ 4 * cs.length := by
  rw [utf8_ofList]
  induction cs with
  | nil => exact ⟨Nat.le_refl _, Nat.le_refl _⟩
  | cons c cs ih =>
    have hlow := c.utf8Size_pos
    have hhigh := c.utf8Size_le_four
    simp only [List.flatMap_cons, List.length_append, List.length_cons, String.length_utf8EncodeChar]
    omega

theorem isPrefixOf?_eq {α : Type} [DecidableEq α] (xs ys : List α) :
    xs.isPrefixOf? ys = if ys.take xs.length = xs then some (ys.drop xs.length) else none := by
  induction xs generalizing ys with
  | nil => simp
  | cons x xs ih =>
    cases ys with
    | nil => simp [List.isPrefixOf?]
    | cons y ys =>
      rw [List.isPrefixOf?, ih, List.length_cons, List.take_succ_cons, List.drop_succ_cons]
      by_cases hxy : x = y
      · simp [hxy]
      · simp [hxy, Ne.symm hxy]

/-! ## Splitting at a separator -/

/-- `str::split_once` at a character. -/
def splitOnce (sep : Char) (text : List Char) : Option (List Char × List Char) :=
  match text.dropWhile (· != sep) with
  | [] => none
  | _ :: rest => some (text.takeWhile (· != sep), rest)

theorem splitOnce_append {before after : List Char} {sep : Char} (h : sep ∉ before) :
    splitOnce sep (before ++ sep :: after) = some (before, after) := by
  rw [splitOnce, dropWhile_ne_append h, takeWhile_ne_append h]

def rsplitOnce (sep : Char) : List Char → Option (List Char × List Char)
  | [] => none
  | c :: cs =>
    match rsplitOnce sep cs with
    | some (front, back) => some (c :: front, back)
    | none => if c = sep then some ([], cs) else none

theorem rsplitOnce_eq_none_iff {sep : Char} {cs : List Char} : rsplitOnce sep cs = none ↔ sep ∉ cs := by
  induction cs with
  | nil => simp [rsplitOnce]
  | cons c cs ih =>
    rw [rsplitOnce, List.mem_cons, not_or, ← ih]
    cases rsplitOnce sep cs with
    | some split => simp
    | none =>
      by_cases hc : c = sep
      · simp [hc]
      · simp [hc, Ne.symm hc]

theorem rsplitOnce_back {sep : Char} {cs front back : List Char} (h : rsplitOnce sep cs = some (front, back)) :
    sep ∉ back := by
  induction cs generalizing front with
  | nil => cases h
  | cons c cs ih =>
    rw [rsplitOnce] at h
    cases hrest : rsplitOnce sep cs with
    | some split =>
      obtain ⟨front', back'⟩ := split
      rw [hrest] at h
      cases h
      exact ih hrest
    | none =>
      rw [hrest] at h
      by_cases hc : c = sep
      · rw [if_pos hc] at h
        cases h
        exact (rsplitOnce_eq_none_iff).mp hrest
      · rw [if_neg hc] at h
        cases h

theorem rsplitOnce_eq_some {sep : Char} {cs front back : List Char} (h : rsplitOnce sep cs = some (front, back)) :
    cs = front ++ sep :: back := by
  induction cs generalizing front with
  | nil => cases h
  | cons c cs ih =>
    rw [rsplitOnce] at h
    cases hrest : rsplitOnce sep cs with
    | some split =>
      obtain ⟨front', back'⟩ := split
      rw [hrest] at h
      cases h
      rw [ih hrest, List.cons_append]
    | none =>
      rw [hrest] at h
      by_cases hc : c = sep
      · rw [if_pos hc] at h
        cases h
        rw [hc, List.nil_append]
      · rw [if_neg hc] at h
        cases h

end Emucap.Lib
