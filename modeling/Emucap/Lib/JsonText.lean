import Emucap.Lib.Json
import Mathlib.Data.Nat.Notation
import Mathlib.Tactic.SplitIfs

/-!
# The text of JSON documents

`Json.pretty` is the text of a document with one entry a line and two blanks for each level, `Json.canonical`
the text without blanks and with the keys of objects in order. How a floating-point number is written is left
to `floatText`. A text is at least as long as the texts of the parts of the document.
-/

namespace Emucap.Lib

namespace Json

def escapeChar (c : Char) : List Char :=
  if c = '"' then ['\\', '"']
  else if c = '\\' then ['\\', '\\']
  else if c.toNat = 8 then ['\\', 'b']
  else if c.toNat = 9 then ['\\', 't']
  else if c.toNat = 10 then ['\\', 'n']
  else if c.toNat = 12 then ['\\', 'f']
  else if c.toNat = 13 then ['\\', 'r']
  else if c.toNat < 32 then
    ['\\', 'u', '0', '0', Nat.digitChar (c.toNat / 16), Nat.digitChar (c.toNat % 16)]
  else [c]

def quote (s : String) : List Char := '"' :: s.toList.flatMap escapeChar ++ ['"']

def indent (level : ℕ) : List Char := '\n' :: List.replicate (2 * level) ' '

section text
variable (floatText : UInt64 → List Char)

/-- The text of a document that is no array and no object. -/
def scalar : Json → List Char
  | .null => ['n', 'u', 'l', 'l']
  | .bool true => ['t', 'r', 'u', 'e']
  | .bool false => ['f', 'a', 'l', 's', 'e']
  | .nat n => Nat.toDigits 10 n
  | .neg n => '-' :: Nat.toDigits 10 (n + 1)
  | .float bits => floatText bits
  | .str s => quote s
  | _ => []

mutual

def pretty (level : ℕ) : Json → List Char
  | .arr [] => ['[', ']']
  | .arr (item :: items) =>
    '[' :: indent (level + 1) ++ pretty (level + 1) item ++ prettyItems level items ++ indent level ++ [']']
  | .obj [] => ['{', '}']
  | .obj ((key, value) :: fields) =>
    '{' :: indent (level + 1) ++ quote key ++ [':', ' '] ++ pretty (level + 1) value ++
      prettyFields level fields ++ indent level ++ ['}']
  | document => scalar floatText document

def prettyItems (level : ℕ) : List Json → List Char
  | [] => []
  | item :: items => ',' :: indent (level + 1) ++ pretty (level + 1) item ++ prettyItems level items

def prettyFields (level : ℕ) : List (String × Json) → List Char
  | [] => []
  | (key, value) :: fields =>
    ',' :: indent (level + 1) ++ quote key ++ [':', ' '] ++ pretty (level + 1) value ++ prettyFields level fields

end

def joinFields (fields : List (String × List Char)) : List Char :=
  [','].intercalate (fields.map fun field => quote field.1 ++ ':' :: field.2)

mutual

def canonical : Json → List Char
  | .arr items => '[' :: [','].intercalate (canonicalItems items) ++ [']']
  | .obj fields =>
    '{' :: joinFields ((canonicalFields fields).mergeSort fun a b => a.1 ≤ b.1) ++ ['}']
  | document => scalar floatText document

def canonicalItems : List Json → List (List Char)
  | [] => []
  | item :: items => canonical item :: canonicalItems items

def canonicalFields : List (String × Json) → List (String × List Char)
  | [] => []
  | (key, value) :: fields => (key, canonical value) :: canonicalFields fields

end

mutual

/-- `serde_json::to_vec`: no blanks, and the keys in the order of the document. -/
def compact : Json → List Char
  | .arr items => '[' :: [','].intercalate (compactItems items) ++ [']']
  | .obj fields => '{' :: joinFields (compactFields fields) ++ ['}']
  | document => scalar floatText document

def compactItems : List Json → List (List Char)
  | [] => []
  | item :: items => compact item :: compactItems items

def compactFields : List (String × Json) → List (String × List Char)
  | [] => []
  | (key, value) :: fields => (key, compact value) :: compactFields fields

end

/-! ## Lengths -/

theorem one_le_length_escapeChar (c : Char) : 1 ≤ (escapeChar c).length := by
  unfold escapeChar
  split_ifs <;> simp

theorem length_le_flatMap_escapeChar (cs : List Char) : cs.length ≤ (cs.flatMap escapeChar).length := by
  induction cs with
  | nil => exact Nat.le_refl _
  | cons c cs ih =>
    have hc := one_le_length_escapeChar c
    simp only [List.flatMap_cons, List.length_append, List.length_cons]
    omega

theorem length_le_quote (s : String) : s.toList.length ≤ (quote s).length := by
  have hs := length_le_flatMap_escapeChar s.toList
  simp only [quote, List.length_append, List.length_cons]
  omega

theorem length_le_prettyFields {level : ℕ} {fields : List (String × Json)} {key : String} {value : Json}
    (h : (key, value) ∈ fields) :
    (pretty floatText (level + 1) value).length ≤ (prettyFields floatText level fields).length := by
  induction fields with
  | nil => cases h
  | cons field fields ih =>
    rcases List.mem_cons.mp h with rfl | hmem
    · simp only [prettyFields, List.length_append, List.length_cons]
      omega
    · have hrest := ih hmem
      obtain ⟨key', value'⟩ := field
      simp only [prettyFields, List.length_append, List.length_cons]
      omega

theorem length_le_pretty_obj {level : ℕ} {fields : List (String × Json)} {key : String} {value : Json}
    (h : (key, value) ∈ fields) :
    (pretty floatText (level + 1) value).length ≤ (pretty floatText level (.obj fields)).length := by
  cases fields with
  | nil => cases h
  | cons field fields =>
    obtain ⟨key', value'⟩ := field
    rcases List.mem_cons.mp h with heq | hmem
    · cases heq
      simp only [pretty, List.length_append, List.length_cons]
      omega
    · have hrest : (pretty floatText (level + 1) value).length ≤ (prettyFields floatText level fields).length :=
        length_le_prettyFields floatText hmem
      simp only [pretty, List.length_append, List.length_cons]
      omega

end text

end Json

end Emucap.Lib
