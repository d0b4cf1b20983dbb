import Emucap.Lib.Checked
import Emucap.Lib.Hex

/-!
# Numbers in arguments

`parse_num_str` of `numparse.rs`. The integer parser at its end takes a plus sign of its own, so a text is refused or
read as it should be except where a second sign stands before the digits (`parseNumStr_accepts`).
-/

namespace Emucap.NumParse

open Emucap.Lib

inductive NumError where
  /-- empty numeric value: {s:?} -/
  | empty (text : List Char)
  /-- failed to parse {s:?} as decimal or 0x/$ hexadecimal: {e} -/
  | digits (text : List Char)
  deriving DecidableEq

def digitValue (radix : ℕ) (c : Char) : Option ℕ := (hexValue c).filter (· < radix)

/-- `u64::from_str_radix`: one plus sign may stand before the digits. -/
def fromStrRadix (text : List Char) (radix : ℕ) : Option ℕ := do
  let digits := if text.head? = some '+' then text.tail else text
  guard (digits ≠ [])
  let values ← digits.mapM (digitValue radix)
  let value := values.foldl (fun n d => n * radix + d) 0
  guard (value < 2 ^ 64)
  return value

/-- `strip_prefix` and `strip_suffix` of one quote character. -/
def stripQuotes (quote : Char) (text : List Char) : Option (List Char) :=
  if text.head? = some quote ∧ text.tail.getLast? = some quote then some text.tail.dropLast else none

/-- The base a text announces, with the digits behind it. -/
def splitRadix : List Char → ℕ × List Char
  | '0' :: 'x' :: digits => (16, digits)
  | '0' :: 'X' :: digits => (16, digits)
  | '$' :: digits => (16, digits)
  | digits => (10, digits)

def parseNumStr (s : List Char) : Except NumError ℕ := do
  let t := trim s
  let t := match stripQuotes '"' t <|> stripQuotes '\'' t with
    | some inner => trim inner
    | none => t
  let t := if t.head? = some '+' then t.tail else t
  let (radix, digits) := splitRadix t
  let digits := digits.filter (· ≠ '_')
  require (digits ≠ []) (.empty s)
  orError (.digits s) (fromStrRadix digits radix)

/-! ## The texts of a number -/

/-- The text within its white space and one pair of quotes. -/
def unquote (s : List Char) : List Char :=
  match stripQuotes '"' (trim s) <|> stripQuotes '\'' (trim s) with
  | some inner => trim inner
  | none => trim s

def stripPlus (text : List Char) : List Char := if text.head? = some '+' then text.tail else text

/-- Digits of the base, at least one. -/
def Digits (radix : ℕ) (text : List Char) (n : ℕ) : Prop :=
  text ≠ [] ∧ ∃ values, text.mapM (digitValue radix) = some values ∧ values.foldl (fun n d => n * radix + d) 0 = n

/-- Digits with `_` between and around them, in base 16 behind what announces it. -/
inductive Spells : List Char → ℕ → Prop
  | decimal {digits n} : Digits 10 (digits.filter (· ≠ '_')) n → Spells digits n
  | lower {digits n} : Digits 16 (digits.filter (· ≠ '_')) n → Spells ('0' :: 'x' :: digits) n
  | upper {digits n} : Digits 16 (digits.filter (· ≠ '_')) n → Spells ('0' :: 'X' :: digits) n
  | dollar {digits n} : Digits 16 (digits.filter (· ≠ '_')) n → Spells ('$' :: digits) n

/-- At most one plus sign, before the number. -/
def Accepted (s : List Char) (n : ℕ) : Prop :=
  n < 2 ^ 64 ∧ (Spells (unquote s) n ∨ ∃ text, unquote s = '+' :: text ∧ Spells text n)

/-- A plus sign stands between what announces the base, or the first plus sign, and the digits. -/
def SecondSign (s : List Char) : Prop :=
  ∃ rest n, (splitRadix (stripPlus (unquote s))).2.filter (· ≠ '_') = '+' :: rest ∧
    Digits (splitRadix (stripPlus (unquote s))).1 rest n ∧ n < 2 ^ 64

theorem not_digits_cons {radix n : ℕ} {c : Char} {text : List Char} (hc : digitValue radix c = none) :
    ¬Digits radix (c :: text) n := by
  rintro ⟨-, values, hvalues, -⟩
  simp [List.mapM_cons, hc] at hvalues

theorem digitValue_plus (radix : ℕ) : digitValue radix '+' = none := rfl

theorem not_digits_zero {c : Char} {digits : List Char} {n : ℕ} (hc : digitValue 10 c = none) (hne : c ≠ '_') :
    ¬Digits 10 (('0' :: c :: digits).filter (· ≠ '_')) n := by
  rintro ⟨-, values, hvalues, -⟩
  simp [List.mapM_cons, hc, hne] at hvalues

theorem spells_iff {text : List Char} {n : ℕ} :
    Spells text n ↔ Digits (splitRadix text).1 ((splitRadix text).2.filter (· ≠ '_')) n := by
  constructor
  · intro h
    cases h with
    | decimal h =>
      unfold splitRadix
      split
      · exact absurd h (not_digits_zero rfl (by decide))
      · exact absurd h (not_digits_zero rfl (by decide))
      · exact absurd h (not_digits_cons rfl)
      · exact h
    | lower h => exact h
    | upper h => exact h
    | dollar h => exact h
  · unfold splitRadix
    split
    · exact .lower
    · exact .upper
    · exact .dollar
    · exact .decimal

theorem accepted_iff {s : List Char} {n : ℕ} : Accepted s n ↔ n < 2 ^ 64 ∧ Spells (stripPlus (unquote s)) n := by
  refine and_congr_right fun _ => ?_
  unfold stripPlus
  cases h : unquote s with
  | nil => simp
  | cons c text =>
    by_cases hc : c = '+'
    · subst hc
      have hnot : ¬Spells ('+' :: text) n := fun h => not_digits_cons (digitValue_plus _) ((spells_iff).mp h)
      simp [hnot]
    · simp [hc]

theorem fromStrRadix_iff {radix n : ℕ} {text : List Char} :
    fromStrRadix text radix = some n ↔ Digits radix (stripPlus text) n ∧ n < 2 ^ 64 := by
  show (do
    guard (stripPlus text ≠ [])
    let values ← (stripPlus text).mapM (digitValue radix)
    let value := values.foldl (fun n d => n * radix + d) 0
    guard (value < 2 ^ 64)
    return value) = some n ↔ _
  simp only [Digits, Option.bind_eq_bind, Option.bind_eq_some_iff, Option.guard_eq_some', Option.pure_def,
    Option.some.injEq]
  constructor
  · rintro ⟨-, hne, values, hvalues, -, hlt, rfl⟩
    exact ⟨⟨hne, values, hvalues, rfl⟩, hlt⟩
  · rintro ⟨⟨hne, values, hvalues, rfl⟩, hlt⟩
    exact ⟨(), hne, values, hvalues, (), hlt, rfl⟩

theorem parseNumStr_iff {s : List Char} {n : ℕ} : parseNumStr s = .ok n ↔
    Digits (splitRadix (stripPlus (unquote s))).1
      (stripPlus ((splitRadix (stripPlus (unquote s))).2.filter (· ≠ '_'))) n ∧ n < 2 ^ 64 := by
  show (do
    require ((splitRadix (stripPlus (unquote s))).2.filter (· ≠ '_') ≠ []) (NumError.empty s)
    orError (NumError.digits s) (fromStrRadix ((splitRadix (stripPlus (unquote s))).2.filter (· ≠ '_'))
      (splitRadix (stripPlus (unquote s))).1)) = .ok n ↔ _
  rw [require_bind_eq_ok, orError_eq_ok, fromStrRadix_iff]
  refine and_iff_right_of_imp fun h hnil => h.1.1 ?_
  rw [hnil]
  rfl

theorem stripPlus_of_head {text : List Char} (h : text.head? ≠ some '+') : stripPlus text = text := if_neg h

theorem Digits.stripPlus {radix n : ℕ} {text : List Char} (h : Digits radix text n) : stripPlus text = text := by
  refine stripPlus_of_head fun hhead => ?_
  obtain ⟨rest, rfl⟩ := List.head?_eq_some_iff.mp hhead
  exact not_digits_cons (digitValue_plus radix) h

theorem parseNumStr_of_accepted {s : List Char} {n : ℕ} (h : Accepted s n) : parseNumStr s = .ok n := by
  obtain ⟨hlt, hspells⟩ := (accepted_iff).mp h
  have hdigits := (spells_iff).mp hspells
  refine (parseNumStr_iff).mpr ⟨?_, hlt⟩
  rw [hdigits.stripPlus]
  exact hdigits

theorem accepts_iff {s : List Char} : (∀ n, parseNumStr s = .ok n ↔ Accepted s n) ↔ ¬SecondSign s := by
  constructor
  · rintro h ⟨rest, n, hrest, hdigits, hlt⟩
    have hread : parseNumStr s = .ok n := by
      refine (parseNumStr_iff).mpr ⟨?_, hlt⟩
      rw [hrest]
      exact hdigits
    have hspells := (spells_iff).mp ((accepted_iff).mp ((h n).mp hread)).2
    rw [hrest] at hspells
    exact not_digits_cons (digitValue_plus _) hspells
  · refine fun h n => ⟨fun hread => ?_, parseNumStr_of_accepted⟩
    obtain ⟨hdigits, hlt⟩ := (parseNumStr_iff).mp hread
    refine (accepted_iff).mpr ⟨hlt, (spells_iff).mpr ?_⟩
    by_cases hhead : ((splitRadix (stripPlus (unquote s))).2.filter (· ≠ '_')).head? = some '+'
    · obtain ⟨rest, hrest⟩ := List.head?_eq_some_iff.mp hhead
      rw [hrest] at hdigits
      exact absurd ⟨rest, n, hrest, hdigits, hlt⟩ h
    · rw [stripPlus_of_head hhead] at hdigits
      exact hdigits

/-! ## Numbers written out -/

theorem digits_toDigits {radix : ℕ} (hlow : 1 < radix) (hhigh : radix ≤ 16) (n : ℕ) :
    Digits radix (Nat.toDigits radix n) n ∧ ∀ c ∈ Nat.toDigits radix n, c.isAlphanum = true := by
  have hdigit {d : ℕ} (hd : d < radix) : digitValue radix (Nat.digitChar d) = some d := by
    rw [digitValue, hexValue_digitChar (by omega), Option.filter_some, if_pos (by simpa using hd)]
  induction n using Nat.strong_induction_on with
  | h n ih =>
    rw [Nat.toDigits_eq_if hlow]
    split
    next hlt =>
      refine ⟨⟨by simp, [n], ?_, by simp⟩, ?_⟩
      · simp [hdigit hlt]
      · simpa using isAlphanum_digitChar (by omega)
    next hle =>
      have hmod : n % radix < radix := Nat.mod_lt _ (by omega)
      obtain ⟨⟨-, values, hvalues, hfold⟩, halnum⟩ := ih (n / radix) (Nat.div_lt_self (by omega) hlow)
      refine ⟨⟨by simp, values ++ [n % radix], ?_, ?_⟩, ?_⟩
      · simp [List.mapM_append, hvalues, hdigit hmod]
      · rw [List.foldl_append, hfold]
        exact Nat.div_add_mod' n radix
      · intro c hc
        rcases List.mem_append.mp hc with hc | hc
        · exact halnum c hc
        · rw [List.mem_singleton.mp hc]
          exact isAlphanum_digitChar (by omega)

theorem unquote_eq_self {text : List Char} (hhead : ∀ c ∈ text.head?, c.isAlphanum = true ∨ c = '$')
    (hlast : ∀ c ∈ text.getLast?, c.isAlphanum = true) : unquote text = text := by
  have hwhite {c : Char} (h : c.isAlphanum = true ∨ c = '$') : isWhitespace c = false := by
    rcases h with h | rfl
    · exact not_isWhitespace_of_isAlphanum h
    · rfl
  have hquote {q : Char} (hq : ¬(q.isAlphanum = true ∨ q = '$')) : stripQuotes q text = none :=
    if_neg fun h => hq (hhead q h.1)
  rw [unquote, trim_eq_self (fun c hc => hwhite (hhead c hc)) fun c hc => hwhite (.inl (hlast c hc)),
    hquote (by decide), hquote (by decide)]
  rfl

theorem filter_toDigits {radix : ℕ} (hlow : 1 < radix) (hhigh : radix ≤ 16) (n : ℕ) :
    (Nat.toDigits radix n).filter (· ≠ '_') = Nat.toDigits radix n := by
  refine List.filter_eq_self.mpr fun c hc => ?_
  have halnum := (digits_toDigits hlow hhigh n).2 c hc
  simp only [ne_eq, decide_not, Bool.not_eq_eq_eq_not, Bool.not_true, decide_eq_false_iff_not]
  rintro rfl
  exact absurd halnum (by decide)

/-- How a number is written. -/
inductive Spelling
  | decimal
  | lower
  | upper
  | dollar

def Spelling.text : Spelling → ℕ → List Char
  | .decimal, n => Nat.toDigits 10 n
  | .lower, n => '0' :: 'x' :: Nat.toDigits 16 n
  | .upper, n => '0' :: 'X' :: Nat.toDigits 16 n
  | .dollar, n => '$' :: Nat.toDigits 16 n

theorem unquote_toDigits {lead : List Char} {radix n : ℕ} (hlow : 1 < radix) (hhigh : radix ≤ 16)
    (hlead : (lead.all fun c => c.isAlphanum || c == '$') = true) :
    unquote (lead ++ Nat.toDigits radix n) = lead ++ Nat.toDigits radix n := by
  have halnum := (digits_toDigits hlow hhigh n).2
  refine unquote_eq_self (fun c hc => ?_) fun c hc => ?_
  · rcases List.mem_append.mp (List.mem_of_head? hc) with hc | hc
    · simpa using List.all_eq_true.mp hlead c hc
    · exact .inl (halnum c hc)
  · rw [List.getLast?_append_of_ne_nil _ Nat.toDigits_ne_nil] at hc
    exact halnum c (List.mem_of_getLast? hc)

theorem accepted_text {n : ℕ} (hn : n < 2 ^ 64) (spelling : Spelling) : Accepted (spelling.text n) n := by
  have hunquote : unquote (spelling.text n) = spelling.text n := by
    cases spelling with
    | decimal => exact @unquote_toDigits [] 10 n (by decide) (by decide) rfl
    | lower => exact @unquote_toDigits ['0', 'x'] 16 n (by decide) (by decide) rfl
    | upper => exact @unquote_toDigits ['0', 'X'] 16 n (by decide) (by decide) rfl
    | dollar => exact @unquote_toDigits ['$'] 16 n (by decide) (by decide) rfl
  have hdigits {radix : ℕ} (hlow : 1 < radix) (hhigh : radix ≤ 16) :
      Digits radix ((Nat.toDigits radix n).filter (· ≠ '_')) n := by
    rw [filter_toDigits hlow hhigh]
    exact (digits_toDigits hlow hhigh n).1
  have hspells : Spells (spelling.text n) n := by
    cases spelling with
    | decimal => exact .decimal (hdigits (by decide) (by decide))
    | lower => exact .lower (hdigits (by decide) (by decide))
    | upper => exact .upper (hdigits (by decide) (by decide))
    | dollar => exact .dollar (hdigits (by decide) (by decide))
  refine ⟨hn, .inl ?_⟩
  rw [hunquote]
  exact hspells

/-! ## Which texts are read -/

/-- A text is read as a number exactly when it is one, but for those with a second sign, and every spelling of a number
is read back as that number. -/
theorem parseNumStr_accepts (s : List Char) :
    ((∀ n, parseNumStr s = .ok n ↔ Accepted s n) ↔ ¬SecondSign s) ∧
      ∀ n < 2 ^ 64, ∀ spelling : Spelling, parseNumStr (spelling.text n) = .ok n :=
  ⟨accepts_iff, fun _ hn spelling => parseNumStr_of_accepted (accepted_text hn spelling)⟩

theorem parseNumStr_accepts_largest : parseNumStr (Spelling.lower.text (2 ^ 64 - 1)) = .ok (2 ^ 64 - 1) :=
  (parseNumStr_accepts []).2 (2 ^ 64 - 1) (by decide) .lower

/-- `0x+5` is read as 5. -/
theorem second_sign_read : ¬∀ (s : List Char) (n : ℕ), parseNumStr s = .ok n ↔ Accepted s n := by
  intro h
  refine (accepts_iff).mp (h "0x+5".toList) ⟨['5'], 5, ?_, ⟨?_, [5], ?_, ?_⟩, ?_⟩ <;> decide +kernel

end Emucap.NumParse
