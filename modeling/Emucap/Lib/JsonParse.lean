import Emucap.Lib.Hex
import Emucap.Lib.Json

/-!
# Reading JSON documents

`Json.fromStr` reads a document as the JSON library does: a key that comes again replaces the earlier one, and values
nest at most `maxNesting` deep. How numbers other than integers are read is left to `floatBits`.
-/

namespace Emucap.Lib.Json

/-- The depth that a text may nest to: one less than the recursion limit of the JSON library. -/
def maxNesting : ℕ := 127

def isBlank (c : Char) : Bool := c == ' ' || c == '\n' || c == '\t' || c == '\r'

def skipBlanks (text : List Char) : List Char := text.dropWhile isBlank

def token (text : List Char) : Option (Char × List Char) :=
  (skipBlanks text).head?.map fun c => (c, (skipBlanks text).tail)

/-! ## Strings -/

/-- The code of four hexadecimal digits. -/
def hexCode : List Char → Option (ℕ × List Char)
  | a :: b :: c :: d :: rest => do
    let a ← hexValue a
    let b ← hexValue b
    let c ← hexValue c
    let d ← hexValue d
    return (((a * 16 + b) * 16 + c) * 16 + d, rest)
  | _ => none

/-- The character after `\u`: a code above the first plane is written as two. -/
def unicodeEscape (text : List Char) : Option (Char × List Char) := do
  let (high, rest) ← hexCode text
  if 0xDC00 ≤ high ∧ high ≤ 0xDFFF then none
  else if 0xD800 ≤ high ∧ high ≤ 0xDBFF then
    match rest with
    | '\\' :: 'u' :: rest => do
      let (low, rest) ← hexCode rest
      if 0xDC00 ≤ low ∧ low ≤ 0xDFFF then
        return (Char.ofNat (0x10000 + (high - 0xD800) * 0x400 + (low - 0xDC00)), rest)
      else none
    | _ => none
  else return (Char.ofNat high, rest)

def unescape : List Char → Option (Char × List Char)
  | '"' :: rest => some ('"', rest)
  | '\\' :: rest => some ('\\', rest)
  | '/' :: rest => some ('/', rest)
  | 'b' :: rest => some (Char.ofNat 8, rest)
  | 'f' :: rest => some (Char.ofNat 12, rest)
  | 'n' :: rest => some ('\n', rest)
  | 'r' :: rest => some ('\r', rest)
  | 't' :: rest => some ('\t', rest)
  | 'u' :: rest => unicodeEscape rest
  | _ => none

def parseString : ℕ → List Char → Option (List Char × List Char)
  | 0, _ => none
  | _ + 1, [] => none
  | bound + 1, c :: rest =>
    if c = '"' then some ([], rest)
    else if c = '\\' then do
      let (c, rest) ← unescape rest
      let (cs, rest) ← parseString bound rest
      return (c :: cs, rest)
    else if c.toNat < 32 then none
    else do
      let (cs, rest) ← parseString bound rest
      return (c :: cs, rest)

/-! ## Numbers -/

section parse
-- the bits of a number that is no integer of 64 bits, where it is in the range of floating-point numbers
variable (floatBits : List Char → Option UInt64)

def digitsAfter (lead rest : List Char) : Option (List Char × List Char) :=
  let digits := rest.takeWhile Char.isDigit
  if digits = [] then none else some (lead ++ digits, rest.dropWhile Char.isDigit)

def parseFraction : List Char → Option (List Char × List Char)
  | '.' :: rest => digitsAfter ['.'] rest
  | text => some ([], text)

def parseExponent : List Char → Option (List Char × List Char)
  | c :: rest =>
    if c = 'e' ∨ c = 'E' then
      match rest with
      | '+' :: rest => digitsAfter [c, '+'] rest
      | '-' :: rest => digitsAfter [c, '-'] rest
      | rest => digitsAfter [c] rest
    else some ([], c :: rest)
  | [] => some ([], [])

def integer (negative : Bool) (whole : List Char) : Option Json :=
  let n := Nat.ofDigitChars 10 whole 0
  if negative = false ∧ n < 2 ^ 64 then some (.nat n)
  else if negative = true ∧ 0 < n ∧ n ≤ 2 ^ 63 then some (.neg (n - 1))
  else (floatBits (if negative then '-' :: whole else whole)).map .float

def parseNumber (negative : Bool) (text : List Char) : Option (Json × List Char) :=
  let whole := text.takeWhile Char.isDigit
  if whole = [] ∨ (whole.head? = some '0' ∧ whole ≠ ['0']) then none
  else do
    let (fraction, rest) ← parseFraction (text.dropWhile Char.isDigit)
    let (exponent, rest) ← parseExponent rest
    if fraction = [] ∧ exponent = [] then return (← integer floatBits negative whole, rest)
    else
      let bits ← floatBits ((if negative then '-' :: whole else whole) ++ fraction ++ exponent)
      return (.float bits, rest)

/-! ## Documents -/

def parseScalar : List Char → Option (Json × List Char)
  | 'n' :: 'u' :: 'l' :: 'l' :: rest => some (.null, rest)
  | 't' :: 'r' :: 'u' :: 'e' :: rest => some (.bool true, rest)
  | 'f' :: 'a' :: 'l' :: 's' :: 'e' :: rest => some (.bool false, rest)
  | '"' :: rest => (parseString (rest.length + 1) rest).map fun (cs, rest) => (.str (String.ofList cs), rest)
  | '-' :: rest => parseNumber floatBits true rest
  | text => parseNumber floatBits false text

section parts
-- how a part is read
variable (value : List Char → Option (Json × List Char))

def parseItems : ℕ → List Char → Option (List Json × List Char)
  | 0, _ => none
  | bound + 1, text => do
    let (item, rest) ← value text
    let (c, rest) ← token rest
    if c = ',' then
      let (items, rest) ← parseItems bound rest
      return (item :: items, rest)
    else if c = ']' then return ([item], rest)
    else none

def parseArray (text : List Char) : Option (Json × List Char) := do
  let (c, rest) ← token text
  if c = ']' then return (.arr [], rest)
  else
    let (items, rest) ← parseItems value (text.length + 1) text
    return (.arr items, rest)

def parseField (text : List Char) : Option ((String × Json) × List Char) := do
  let (c, rest) ← token text
  if c = '"' then
    let (key, rest) ← parseString (rest.length + 1) rest
    let (c, rest) ← token rest
    if c = ':' then
      let (v, rest) ← value rest
      return ((String.ofList key, v), rest)
    else none
  else none

def parseFields : ℕ → List (String × Json) → List Char → Option (List (String × Json) × List Char)
  | 0, _, _ => none
  | bound + 1, fields, text => do
    let (field, rest) ← parseField value text
    let (c, rest) ← token rest
    if c = ',' then parseFields bound (OrdMap.insert field.1 field.2 fields) rest
    else if c = '\x7d' then return (OrdMap.insert field.1 field.2 fields, rest)
    else none

def parseObject (text : List Char) : Option (Json × List Char) := do
  let (c, rest) ← token text
  if c = '\x7d' then return (.obj [], rest)
  else
    let (fields, rest) ← parseFields value (text.length + 1) [] text
    return (.obj fields, rest)

end parts

def parseValue : ℕ → List Char → Option (Json × List Char)
  | 0, text => parseScalar floatBits (skipBlanks text)
  | levels + 1, text => do
    let (c, rest) ← token text
    if c = '[' then parseArray (parseValue levels) rest
    else if c = '\x7b' then parseObject (parseValue levels) rest
    else parseScalar floatBits (c :: rest)

def fromStr (text : List Char) : Option Json := do
  let (v, rest) ← parseValue floatBits maxNesting text
  if skipBlanks rest = [] then some v else none

def fromSlice (bytes : List UInt8) : Option Json := do fromStr floatBits (← fromUtf8 bytes).toList

end parse

end Emucap.Lib.Json
