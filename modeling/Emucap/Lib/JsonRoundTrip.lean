import Emucap.Lib.JsonParse
import Emucap.Lib.JsonValues

/-!
# Texts of documents are read back

The compact text of a document whose numbers are integers and whose keys ascend is read back as the document, if it
does not nest deeper than the reader follows it. Each text is read together with what stands behind it: behind a value
stands a comma, a closing bracket or nothing, so that the end of a number is seen.
-/

namespace Emucap.Lib.Json

/-! ## Strings -/

theorem hexCode_digits {n : ℕ} (h : n < 256) (rest : List Char) :
    hexCode ('0' :: '0' :: Nat.digitChar (n / 16) :: Nat.digitChar (n % 16) :: rest) = some (n, rest) := by
  have hzero : hexValue '0' = some 0 := by decide
  rw [hexCode, hzero, hexValue_digitChar (by omega), hexValue_digitChar (by omega)]
  simp only [Option.bind_eq_bind, Option.bind_some, Option.pure_def, Option.some.injEq, Prod.mk.injEq, and_true]
  omega

theorem unicodeEscape_digits {c : Char} (h : c.toNat < 32) (rest : List Char) :
    unicodeEscape ('0' :: '0' :: Nat.digitChar (c.toNat / 16) :: Nat.digitChar (c.toNat % 16) :: rest) =
      some (c, rest) := by
  rw [unicodeEscape, hexCode_digits (by omega)]
  simp only [Option.bind_eq_bind, Option.bind_some]
  rw [if_neg (by omega), if_neg (by omega), Char.ofNat_toNat]
  rfl

theorem parseString_escapeChar (bound : ℕ) (c : Char) (rest : List Char) :
    parseString (bound + 1) (escapeChar c ++ rest) =
      (parseString bound rest).map fun read => (c :: read.1, read.2) := by
  have hcode : ∀ {n : ℕ}, c.toNat = n → c = Char.ofNat n := by
    intro n h
    rw [← h, Char.ofNat_toNat]
  have hescaped : ∀ {letters : List Char}, unescape letters = some (c, rest) →
      parseString (bound + 1) ('\\' :: letters) = (parseString bound rest).map fun read => (c :: read.1, read.2) := by
    intro letters h
    rw [parseString, if_neg (by decide), if_pos rfl, h, Option.bind_eq_bind, Option.bind_some]
    dsimp only
    cases parseString bound rest <;> rfl
  unfold escapeChar
  split_ifs with h1 h2 h3 h4 h5 h6 h7 h8
  · exact hescaped (by rw [h1]; rfl)
  · exact hescaped (by rw [h2]; rfl)
  · exact hescaped (by rw [hcode h3]; rfl)
  · exact hescaped (by rw [hcode h4]; rfl)
  · exact hescaped (by rw [hcode h5]; rfl)
  · exact hescaped (by rw [hcode h6]; rfl)
  · exact hescaped (by rw [hcode h7]; rfl)
  · exact hescaped (unicodeEscape_digits h8 rest)
  · rw [List.singleton_append, parseString, if_neg h1, if_neg h2, if_neg h8]
    cases parseString bound rest <;> rfl

theorem parseString_escaped {cs rest : List Char} {bound : ℕ} (h : cs.length < bound) :
    parseString bound (cs.flatMap escapeChar ++ '"' :: rest) = some (cs, rest) := by
  induction cs generalizing bound with
  | nil =>
    obtain ⟨bound, rfl⟩ := Nat.exists_eq_add_of_lt h
    rfl
  | cons c cs ih =>
    obtain ⟨bound, rfl⟩ : ∃ n, bound = n + 1 := ⟨bound - 1, by omega⟩
    rw [List.flatMap_cons, List.append_assoc, parseString_escapeChar, ih (by simpa using h)]
    rfl

theorem parseString_quote (s : String) (rest : List Char) :
    ∃ text, quote s ++ rest = '"' :: text ∧ parseString (text.length + 1) text = some (s.toList, rest) := by
  refine ⟨s.toList.flatMap escapeChar ++ '"' :: rest, by simp [quote], parseString_escaped ?_⟩
  have hlength := length_le_flatMap_escapeChar s.toList
  simp only [List.length_append, List.length_cons]
  omega

/-! ## What stands behind a value -/

def Follows (rest : List Char) : Prop := ∀ c ∈ rest.head?, c = ',' ∨ c = ']' ∨ c = '}'

theorem follows_nil : Follows [] := nofun

theorem follows_cons {c : Char} {rest : List Char} (h : c = ',' ∨ c = ']' ∨ c = '}') : Follows (c :: rest) := by
  intro c' hc'
  obtain rfl := Option.some.inj hc'
  exact h

theorem skipBlanks_cons {c : Char} {rest : List Char} (h : isBlank c = false) : skipBlanks (c :: rest) = c :: rest := by
  rw [skipBlanks, List.dropWhile_cons_of_neg (by simp [h])]

theorem token_cons {c : Char} {rest : List Char} (h : isBlank c = false) : token (c :: rest) = some (c, rest) := by
  rw [token, skipBlanks_cons h]
  rfl

/-! ## Numbers -/

section numbers
variable {floatBits : List Char → Option UInt64} {rest : List Char}

theorem parseFraction_follows (h : Follows rest) : parseFraction rest = some ([], rest) := by
  unfold parseFraction
  split
  · rcases h '.' rfl with h | h | h <;> exact absurd h (by decide)
  · rfl

theorem parseExponent_follows (h : Follows rest) : parseExponent rest = some ([], rest) := by
  cases rest with
  | nil => rfl
  | cons c rest =>
    have hc := h c rfl
    have hne : ¬ (c = 'e' ∨ c = 'E') := by
      rcases hc with rfl | rfl | rfl <;> decide
    simp only [parseExponent, if_neg hne]

theorem parseNumber_toDigits {negative : Bool} {n : ℕ} (h : Follows rest) :
    parseNumber floatBits negative (Nat.toDigits 10 n ++ rest) =
      (integer floatBits negative (Nat.toDigits 10 n)).map fun v => (v, rest) := by
  have hdigits : ∀ c ∈ Nat.toDigits 10 n, c.isDigit = true := fun c hc =>
    Nat.isDigit_of_mem_toDigits (by decide) (by decide) hc
  have hstop : rest.takeWhile Char.isDigit = [] ∧ rest.dropWhile Char.isDigit = rest := by
    cases rest with
    | nil => exact ⟨rfl, rfl⟩
    | cons c rest =>
      have hc : c.isDigit = false := by
        rcases h c rfl with rfl | rfl | rfl <;> decide
      simp [hc]
  have htake : (Nat.toDigits 10 n ++ rest).takeWhile Char.isDigit = Nat.toDigits 10 n := by
    rw [List.takeWhile_append_of_pos hdigits, hstop.1, List.append_nil]
  have hdrop : (Nat.toDigits 10 n ++ rest).dropWhile Char.isDigit = rest := by
    rw [List.dropWhile_append_of_pos hdigits, hstop.2]
  have hplain : ¬ (Nat.toDigits 10 n = [] ∨ ((Nat.toDigits 10 n).head? = some '0' ∧ Nat.toDigits 10 n ≠ ['0'])) := by
    rintro (hempty | ⟨hzero, hne⟩)
    · exact Nat.toDigits_ne_nil hempty
    · obtain ⟨c, hc⟩ := List.length_eq_one_iff.mp (length_toDigits_of_head_zero hzero)
      rw [hc, List.head?_cons, Option.some.injEq] at hzero
      exact hne (by rw [hc, hzero])
  simp only [parseNumber, htake, hdrop]
  rw [if_neg hplain, parseFraction_follows h]
  simp only [Option.bind_eq_bind, Option.bind_some]
  rw [parseExponent_follows h]
  cases integer floatBits negative (Nat.toDigits 10 n) <;> rfl

theorem integer_nat {n : ℕ} (h : n < 2 ^ 64) : integer floatBits false (Nat.toDigits 10 n) = some (.nat n) := by
  simp only [integer]
  rw [Nat.ofDigitChars_ten_toDigits, if_pos ⟨trivial, h⟩]

theorem integer_neg {n : ℕ} (h : n < 2 ^ 63) : integer floatBits true (Nat.toDigits 10 (n + 1)) = some (.neg n) := by
  simp only [integer]
  rw [Nat.ofDigitChars_ten_toDigits, if_neg (by simp), if_pos ⟨trivial, by omega, by omega⟩, Nat.add_sub_cancel]

end numbers

/-! ## Documents without parts -/

/-- A text that begins with no blank and opens no array and no object. -/
def StartsScalar (text : List Char) : Prop :=
  ∃ c rest, text = c :: rest ∧ isBlank c = false ∧ c ≠ ']' ∧ c ≠ '[' ∧ c ≠ '\x7b'

section documents
variable {floatText : UInt64 → List Char} {floatBits : List Char → Option UInt64} {rest : List Char}

theorem toDigits_eq_cons (n : ℕ) : ∃ c cs, Nat.toDigits 10 n = c :: cs ∧ 48 ≤ c.toNat ∧ c.toNat ≤ 57 := by
  obtain ⟨c, cs, hcs⟩ := List.exists_cons_of_ne_nil (@Nat.toDigits_ne_nil n 10)
  have hmem : c ∈ Nat.toDigits 10 n := by
    rw [hcs]
    exact List.mem_cons_self
  have hdigit : c.isDigit = true := Nat.isDigit_of_mem_toDigits (by decide) (by decide) hmem
  exact ⟨c, cs, hcs, by simpa [Char.isDigit, UInt32.le_iff_toNat_le] using hdigit⟩

theorem startsScalar_digit {c : Char} {cs : List Char} (h : 48 ≤ c.toNat ∧ c.toNat ≤ 57) : StartsScalar (c :: cs) := by
  have hne : ∀ d : Char, d.toNat < 48 ∨ 57 < d.toNat → c ≠ d := by
    rintro d hd rfl
    omega
  refine ⟨c, cs, rfl, ?_, hne ']' (by decide), hne '[' (by decide), hne '\x7b' (by decide)⟩
  simp [isBlank, hne ' ' (by decide), hne '\n' (by decide), hne '\t' (by decide), hne '\r' (by decide)]

theorem parseScalar_digit {c : Char} {cs : List Char} (h : 48 ≤ c.toNat ∧ c.toNat ≤ 57) :
    parseScalar floatBits (c :: cs) = parseNumber floatBits false (c :: cs) := by
  have hne : ∀ {d : Char}, d.toNat < 48 ∨ 57 < d.toNat → c ≠ d := by
    rintro d hd rfl
    omega
  unfold parseScalar
  split
  · next heq => exact absurd (List.cons.inj heq).1 (hne (by decide))
  · next heq => exact absurd (List.cons.inj heq).1 (hne (by decide))
  · next heq => exact absurd (List.cons.inj heq).1 (hne (by decide))
  · next heq => exact absurd (List.cons.inj heq).1 (hne (by decide))
  · next heq => exact absurd (List.cons.inj heq).1 (hne (by decide))
  · rfl

theorem parseScalar_compact {v : Json} (harray : v.asArray = none) (hobject : v.asObject = none) (hv : v.IsInteger)
    (h : Follows rest) : StartsScalar (v.compact floatText ++ rest) ∧
      parseScalar floatBits (v.compact floatText ++ rest) = some (v, rest) := by
  cases v with
  | null => exact ⟨⟨'n', _, rfl, by decide, by decide, by decide, by decide⟩, rfl⟩
  | bool b =>
    cases b with
    | false => exact ⟨⟨'f', _, rfl, by decide, by decide, by decide, by decide⟩, rfl⟩
    | true => exact ⟨⟨'t', _, rfl, by decide, by decide, by decide, by decide⟩, rfl⟩
  | nat n =>
    obtain ⟨c, cs, hcs, hdigit⟩ := toDigits_eq_cons n
    have hcompact : (Json.nat n).compact floatText = Nat.toDigits 10 n := rfl
    refine ⟨?_, ?_⟩
    · rw [hcompact, hcs]
      exact startsScalar_digit hdigit
    · have hnumber := @parseNumber_toDigits floatBits rest false n h
      rw [integer_nat hv] at hnumber
      rw [hcompact]
      rw [hcs] at hnumber ⊢
      rw [List.cons_append, parseScalar_digit hdigit]
      exact hnumber
  | neg n =>
    refine ⟨⟨'-', _, rfl, by decide, by decide, by decide, by decide⟩, ?_⟩
    have hnumber := @parseNumber_toDigits floatBits rest true (n + 1) h
    rw [integer_neg hv] at hnumber
    exact hnumber
  | float bits => exact absurd hv id
  | str s =>
    obtain ⟨text, htext, hparse⟩ := parseString_quote s rest
    have hcompact : (Json.str s).compact floatText = quote s := rfl
    rw [hcompact, htext]
    refine ⟨⟨'"', text, rfl, by decide, by decide, by decide, by decide⟩, ?_⟩
    rw [parseScalar, hparse, Option.map_some]
    dsimp only
    rw [String.ofList_toList]
  | arr items => exact absurd harray nofun
  | obj fields => exact absurd hobject nofun

/-! ## Arrays and objects -/

/-- The reader reads the text of a part, whatever follows it. -/
def ReadsPart (floatText : UInt64 → List Char) (value : List Char → Option (Json × List Char)) (v : Json) : Prop :=
  ∀ rest, Follows rest → value (v.compact floatText ++ rest) = some (v, rest)

variable {value : List Char → Option (Json × List Char)}

theorem parseItems_intercalate {items : List Json} {bound : ℕ} (hne : items ≠ []) (hbound : items.length ≤ bound)
    (h : ∀ item ∈ items, ReadsPart floatText value item) :
    parseItems value bound ([','].intercalate (items.map (compact floatText)) ++ ']' :: rest) = some (items, rest) := by
  induction items generalizing bound with
  | nil => exact absurd rfl hne
  | cons item items ih =>
    obtain ⟨bound, rfl⟩ : ∃ n, bound = n + 1 := ⟨bound - 1, by rw [List.length_cons] at hbound; omega⟩
    obtain ⟨hitem, hitems⟩ := List.forall_mem_cons.mp h
    by_cases hlast : items = []
    · rw [hlast, List.map_singleton, List.intercalate_singleton]
      simp only [parseItems]
      rw [hitem (']' :: rest) (follows_cons (by decide))]
      simp only [Option.bind_eq_bind, Option.bind_some]
      rw [token_cons (by decide)]
      simp
    · have hrest := ih hlast (by simpa using hbound) hitems
      rw [List.map_cons, List.intercalate_cons_of_ne_nil (by simpa using hlast), List.append_assoc, List.append_assoc,
        List.singleton_append]
      simp only [parseItems]
      rw [hitem _ (follows_cons (by decide))]
      simp only [Option.bind_eq_bind, Option.bind_some]
      rw [token_cons (by decide)]
      simp only [Option.bind_some, if_true]
      rw [hrest]
      rfl

theorem parseField_compact {key : String} {v : Json} (hv : ReadsPart floatText value v) (h : Follows rest) :
    parseField value (quote key ++ ':' :: v.compact floatText ++ rest) = some ((key, v), rest) := by
  obtain ⟨text, htext, hparse⟩ := parseString_quote key (':' :: (v.compact floatText ++ rest))
  rw [List.append_assoc, List.cons_append, htext, parseField, token_cons (by decide)]
  simp only [Option.bind_eq_bind, Option.bind_some, if_true]
  rw [hparse]
  simp only [Option.bind_some]
  rw [token_cons (by decide)]
  simp only [Option.bind_some, if_true]
  rw [hv rest h, Option.bind_some, String.ofList_toList]
  rfl

theorem insert_ascending {fields more : List (String × Json)} {field : String × Json}
    (h : ((fields ++ field :: more).map Prod.fst).Pairwise (· < ·)) :
    OrdMap.insert field.1 field.2 fields = fields ++ [field] := by
  rw [List.pairwise_map] at h
  exact OrdMap.insert_of_forall_lt field.2 fun e he => (List.pairwise_append.mp h).2.2 e he field List.mem_cons_self

def fieldText (floatText : UInt64 → List Char) (field : String × Json) : List Char :=
  quote field.1 ++ ':' :: field.2.compact floatText

theorem parseFields_intercalate {fields done : List (String × Json)} {bound : ℕ} (hne : fields ≠ [])
    (hbound : fields.length ≤ bound) (h : ∀ field ∈ fields, ReadsPart floatText value field.2)
    (hascending : ((done ++ fields).map Prod.fst).Pairwise (· < ·)) :
    parseFields value bound done ([','].intercalate (fields.map (fieldText floatText)) ++ '\x7d' :: rest) =
      some (done ++ fields, rest) := by
  induction fields generalizing bound done with
  | nil => exact absurd rfl hne
  | cons field fields ih =>
    obtain ⟨bound, rfl⟩ : ∃ n, bound = n + 1 := ⟨bound - 1, by rw [List.length_cons] at hbound; omega⟩
    obtain ⟨hfield, hfields⟩ := List.forall_mem_cons.mp h
    have hinsert := insert_ascending hascending
    by_cases hlast : fields = []
    · rw [hlast, List.map_singleton, List.intercalate_singleton, fieldText]
      simp only [parseFields]
      rw [parseField_compact hfield (follows_cons (by decide))]
      simp only [Option.bind_eq_bind, Option.bind_some]
      rw [token_cons (by decide), hinsert]
      simp
    · have hrest := @ih (done ++ [field]) bound hlast (by simpa using hbound) hfields (by simpa using hascending)
      rw [List.map_cons, List.intercalate_cons_of_ne_nil (by simpa using hlast), List.append_assoc, List.append_assoc,
        List.singleton_append, fieldText]
      simp only [parseFields]
      rw [parseField_compact hfield (follows_cons (by decide))]
      simp only [Option.bind_eq_bind, Option.bind_some]
      rw [token_cons (by decide), hinsert]
      simp only [Option.bind_some, if_true]
      rw [hrest, List.append_assoc, List.singleton_append]

theorem length_le_intercalate (sep : Char) (ls : List (List Char)) : ls.length ≤ ([sep].intercalate ls).length + 1 := by
  induction ls with
  | nil => exact Nat.zero_le _
  | cons l ls ih =>
    by_cases hlast : ls = []
    · rw [hlast, List.length_singleton]
      omega
    · rw [List.intercalate_cons_of_ne_nil hlast, List.length_cons, List.length_append, List.length_append,
        List.length_singleton]
      omega

theorem intercalate_eq_cons {c sep : Char} {l cs : List Char} {ls : List (List Char)} (h : l = c :: cs)
    (rest : List Char) : ∃ text, [sep].intercalate (l :: ls) ++ rest = c :: text := by
  by_cases hlast : ls = []
  · exact ⟨cs ++ rest, by rw [hlast, List.intercalate_singleton, h, List.cons_append]⟩
  · refine ⟨cs ++ [sep] ++ [sep].intercalate ls ++ rest, ?_⟩
    rw [List.intercalate_cons_of_ne_nil hlast, h, List.cons_append, List.cons_append, List.cons_append]

theorem compact_eq_cons {v : Json} (hv : v.Integral) :
    ∃ c cs, v.compact floatText = c :: cs ∧ isBlank c = false ∧ c ≠ ']' := by
  cases v with
  | arr items => exact ⟨'[', _, by rw [compact]; rfl, by decide, by decide⟩
  | obj fields => exact ⟨'\x7b', _, by rw [compact]; rfl, by decide, by decide⟩
  | _ =>
    obtain ⟨⟨c, cs, hcs, hblank, hend, -⟩, -⟩ := @parseScalar_compact floatText
      (fun _ => none) [] _ rfl rfl ((all_scalar rfl rfl).mp hv) follows_nil
    exact ⟨c, cs, by rwa [List.append_nil] at hcs, hblank, hend⟩

theorem parseArray_compact {items : List Json} (hitems : ∀ item ∈ items, item.Integral)
    (h : ∀ item ∈ items, ReadsPart floatText value item) :
    parseArray value ([','].intercalate (compactItems floatText items) ++ ']' :: rest) = some (.arr items, rest) := by
  rw [compactItems_eq]
  by_cases hempty : items = []
  · rw [hempty, List.map_nil, List.intercalate_nil, List.nil_append, parseArray, token_cons (by decide)]
    rfl
  · have hread := @parseItems_intercalate floatText rest value items
      (([','].intercalate (items.map (compact floatText)) ++ ']' :: rest).length + 1) hempty ?_ h
    · obtain ⟨item, more, rfl⟩ := List.exists_cons_of_ne_nil hempty
      obtain ⟨c, cs, hcs, hblank, hend⟩ := @compact_eq_cons floatText item (hitems item List.mem_cons_self)
      obtain ⟨text, htext⟩ := @intercalate_eq_cons c ',' _ cs (more.map (compact floatText)) hcs (']' :: rest)
      rw [← List.map_cons] at htext
      rw [htext] at hread ⊢
      rw [parseArray, token_cons hblank]
      simp only [Option.bind_eq_bind, Option.bind_some, if_neg hend]
      rw [hread]
      rfl
    · have hlength := length_le_intercalate ',' (items.map (compact floatText))
      rw [List.length_map] at hlength
      rw [List.length_append]
      omega

theorem parseObject_compact {fields : List (String × Json)} (h : ∀ field ∈ fields, ReadsPart floatText value field.2)
    (hascending : (fields.map Prod.fst).Pairwise (· < ·)) :
    parseObject value (joinFields (compactFields floatText fields) ++ '\x7d' :: rest) = some (.obj fields, rest) := by
  have hjoin : joinFields (compactFields floatText fields) = [','].intercalate (fields.map (fieldText floatText)) := by
    rw [joinFields, compactFields_eq, List.map_map]
    rfl
  rw [hjoin]
  by_cases hempty : fields = []
  · rw [hempty, List.map_nil, List.intercalate_nil, List.nil_append, parseObject, token_cons (by decide)]
    rfl
  · have hread := @parseFields_intercalate floatText rest value fields []
      (([','].intercalate (fields.map (fieldText floatText)) ++ '\x7d' :: rest).length + 1) hempty ?_ h hascending
    · obtain ⟨field, more, rfl⟩ := List.exists_cons_of_ne_nil hempty
      have hquote : fieldText floatText field = '"' :: (field.1.toList.flatMap escapeChar ++ ['"'] ++
          ':' :: field.2.compact floatText) := by
        rw [fieldText, quote, List.cons_append, List.cons_append]
      obtain ⟨text, htext⟩ := @intercalate_eq_cons '"' ',' _ _ (more.map (fieldText floatText)) hquote ('\x7d' :: rest)
      rw [← List.map_cons] at htext
      rw [htext] at hread ⊢
      rw [parseObject, token_cons (by decide)]
      simp only [Option.bind_eq_bind, Option.bind_some]
      rw [if_neg (by decide), hread]
      rfl
    · have hlength := length_le_intercalate ',' (fields.map (fieldText floatText))
      rw [List.length_map] at hlength
      rw [List.length_append]
      omega

/-! ## Documents -/

theorem readsPart_parseValue {v : Json} {levels : ℕ} (hintegral : v.Integral) (hordered : v.Ordered)
    (hnesting : v.nesting ≤ levels) : ReadsPart floatText (parseValue floatBits levels) v := by
  induction v using documentInduction generalizing levels with
  | scalar v harray hobject =>
    intro rest hrest
    obtain ⟨⟨c, text, htext, hblank, -, hopen, hbrace⟩, hread⟩ := @parseScalar_compact floatText floatBits rest v
      harray hobject ((all_scalar harray hobject).mp hintegral) hrest
    rw [htext] at hread ⊢
    cases levels with
    | zero => rw [parseValue, skipBlanks_cons hblank, hread]
    | succ levels =>
      rw [parseValue, token_cons hblank]
      simp only [Option.bind_eq_bind, Option.bind_some, if_neg hopen, if_neg hbrace]
      exact hread
  | array items ih =>
    intro rest hrest
    obtain ⟨levels, rfl⟩ : ∃ n, levels = n + 1 := ⟨levels - 1, by rw [nesting] at hnesting; omega⟩
    have hitems := (all_arr.mp hintegral).2
    have hread := @parseArray_compact floatText rest (parseValue floatBits levels) items hitems fun item hitem =>
      ih item hitem (hitems item hitem) ((all_arr.mp hordered).2 item hitem) (nesting_arr_le.mp hnesting item hitem)
    rw [compact, List.append_assoc, List.cons_append, List.singleton_append, parseValue, token_cons (by decide)]
    simp only [Option.bind_eq_bind, Option.bind_some, if_true]
    exact hread
  | object fields ih =>
    intro rest hrest
    obtain ⟨levels, rfl⟩ : ∃ n, levels = n + 1 := ⟨levels - 1, by rw [nesting] at hnesting; omega⟩
    obtain ⟨hascending, hfields⟩ := all_obj.mp hordered
    have hread := @parseObject_compact floatText rest (parseValue floatBits levels) fields
      (fun field hfield => ih field hfield ((all_obj.mp hintegral).2 field hfield) (hfields field hfield)
        (nesting_obj_le.mp hnesting field hfield)) hascending
    rw [compact, List.append_assoc, List.cons_append, List.singleton_append, parseValue, token_cons (by decide)]
    simp only [Option.bind_eq_bind, Option.bind_some, if_true]
    rw [if_neg (by decide)]
    exact hread

theorem fromStr_compact {v : Json} (hintegral : v.Integral) (hordered : v.Ordered) (hnesting : v.nesting ≤ maxNesting) :
    fromStr floatBits (v.compact floatText) = some v := by
  have hread := @readsPart_parseValue floatText floatBits v maxNesting hintegral hordered hnesting [] follows_nil
  rw [List.append_nil] at hread
  rw [fromStr, hread]
  rfl

theorem fromStr_canonical {v : Json} (hintegral : v.Integral) (hmapped : v.Mapped) (hnesting : v.nesting ≤ maxNesting) :
    fromStr floatBits (v.canonical floatText) = some v.sortKeys := by
  rw [canonical_eq]
  exact fromStr_compact (integral_sortKeys hintegral) (ordered_sortKeys hmapped) (nesting_sortKeys.mpr hnesting)

/-- Canonical texts are equal for equal values only. However deep a document nests, a reader that follows it that deep
reads it back. -/
theorem canonical_inj {v w : Json} (hv : v.Integral ∧ v.Mapped) (hw : w.Integral ∧ w.Mapped) :
    v.canonical floatText = w.canonical floatText ↔ v.SameValue w := by
  rw [canonical_eq, canonical_eq]
  refine ⟨fun h => ?_, fun h => congrArg (compact floatText) h⟩
  have hread : ∀ {u : Json}, u.Integral ∧ u.Mapped → u.sortKeys.nesting ≤ max v.sortKeys.nesting w.sortKeys.nesting →
      parseValue (fun _ => none) (max v.sortKeys.nesting w.sortKeys.nesting) (u.sortKeys.compact floatText ++ []) =
        some (u.sortKeys, []) :=
    fun hu hle => readsPart_parseValue (integral_sortKeys hu.1) (ordered_sortKeys hu.2) hle [] follows_nil
  have hfirst := hread hv (Nat.le_max_left _ _)
  have hsecond := hread hw (Nat.le_max_right _ _)
  rw [h, hsecond] at hfirst
  exact (Prod.mk.inj (Option.some.inj hfirst)).1.symm

end documents

end Emucap.Lib.Json
