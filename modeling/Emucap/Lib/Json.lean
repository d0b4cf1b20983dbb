import Emucap.Lib.OrdMap
import Mathlib.Data.String.Basic

/-!
# JSON documents

`Json` is a document as a JSON library holds it: objects are ordered maps, `neg n` is `-(n + 1)`, a floating-point
number is its bit pattern. The readers answer `none` on a document of another shape, and the writers leave it alone.

A `Line` of a newline-delimited stream is the document it carries, or the text that is none.
-/

namespace Emucap.Lib

inductive Json where
  | null
  | bool (b : Bool)
  | nat (n : Nat)
  | neg (n : Nat)
  | float (bits : UInt64)
  | str (s : String)
  | arr (items : List Json)
  | obj (fields : List (String × Json))
  deriving Repr, Inhabited

namespace Json

/-! ## Equality -/

mutual

def beq : Json → Json → Bool
  | .null, .null => true
  | .bool a, .bool b => decide (a = b)
  | .nat a, .nat b => decide (a = b)
  | .neg a, .neg b => decide (a = b)
  | .float a, .float b => decide (a = b)
  | .str a, .str b => decide (a = b)
  | .arr a, .arr b => beqItems a b
  | .obj a, .obj b => beqFields a b
  | _, _ => false

def beqItems : List Json → List Json → Bool
  | [], [] => true
  | a :: as, b :: bs => beq a b && beqItems as bs
  | _, _ => false

def beqFields : List (String × Json) → List (String × Json) → Bool
  | [], [] => true
  | (k, a) :: as, (l, b) :: bs => decide (k = l) && beq a b && beqFields as bs
  | _, _ => false

end

mutual

theorem eq_of_beq : ∀ {a b : Json}, beq a b = true → a = b
  | .null, .null, _ => rfl
  | .bool _, .bool _, h => by rw [of_decide_eq_true h]
  | .nat _, .nat _, h => by rw [of_decide_eq_true h]
  | .neg _, .neg _, h => by rw [of_decide_eq_true h]
  | .float _, .float _, h => by rw [of_decide_eq_true h]
  | .str _, .str _, h => by rw [of_decide_eq_true h]
  | .arr _, .arr _, h => by rw [eq_of_beqItems h]
  | .obj _, .obj _, h => by rw [eq_of_beqFields h]

theorem eq_of_beqItems : ∀ {a b : List Json}, beqItems a b = true → a = b
  | [], [], _ => rfl
  | _ :: _, _ :: _, h => by
    rw [beqItems, Bool.and_eq_true] at h
    rw [eq_of_beq h.1, eq_of_beqItems h.2]

theorem eq_of_beqFields : ∀ {a b : List (String × Json)}, beqFields a b = true → a = b
  | [], [], _ => rfl
  | (_, _) :: _, (_, _) :: _, h => by
    rw [beqFields, Bool.and_eq_true, Bool.and_eq_true] at h
    rw [of_decide_eq_true h.1.1, eq_of_beq h.1.2, eq_of_beqFields h.2]

end

mutual

theorem beq_refl : ∀ a : Json, beq a a = true
  | .null | .bool _ | .nat _ | .neg _ | .float _ | .str _ => by simp [beq]
  | .arr items => beqItems_refl items
  | .obj fields => beqFields_refl fields

theorem beqItems_refl : ∀ a : List Json, beqItems a a = true
  | [] => rfl
  | a :: as => by rw [beqItems, beq_refl a, beqItems_refl as]; rfl

theorem beqFields_refl : ∀ a : List (String × Json), beqFields a a = true
  | [] => rfl
  | (k, a) :: as => by rw [beqFields, beq_refl a, beqFields_refl as]; simp

end

instance : DecidableEq Json := fun a b =>
  decidable_of_iff (beq a b = true) ⟨eq_of_beq, fun h => h ▸ beq_refl a⟩

/-! ## Readers -/

def get (v : Json) (k : String) : Option Json :=
  match v with
  | .obj fields => OrdMap.find? k fields
  | _ => none

def asStr : Json → Option String
  | .str s => some s
  | _ => none

def asBool : Json → Option Bool
  | .bool b => some b
  | _ => none

def asU64 : Json → Option Nat
  | .nat n => if n < 2 ^ 64 then some n else none
  | _ => none

def asArray : Json → Option (List Json)
  | .arr items => some items
  | _ => none

def asObject : Json → Option (List (String × Json))
  | .obj fields => some fields
  | _ => none

def isObject (v : Json) : Bool := v.asObject.isSome

/-- An optional field: a missing member and `null` are both no value. -/
def optional : Option Json → Option Json
  | some .null => none
  | v => v

/-! ## Writers -/

def set (v : Json) (k : String) (x : Json) : Json :=
  match v with
  | .obj fields => .obj (OrdMap.insert k x fields)
  | v => v

def remove (v : Json) (k : String) : Json :=
  match v with
  | .obj fields => .obj (OrdMap.erase k fields)
  | v => v

theorem asU64_nat {n : Nat} (h : n < 2 ^ 64) : (Json.nat n).asU64 = some n := if_pos h

theorem asU64_eq_some {v : Json} {n : Nat} (h : v.asU64 = some n) : v = .nat n ∧ n < 2 ^ 64 := by
  cases v with
  | nat m =>
    simp only [asU64] at h
    split_ifs at h with hm
    cases h
    exact ⟨rfl, hm⟩
  | _ => simp [asU64] at h

@[simp] theorem asStr_str (s : String) : (Json.str s).asStr = some s := rfl

@[simp] theorem get_obj (k : String) (fields : List (String × Json)) :
    (Json.obj fields).get k = OrdMap.find? k fields := rfl

theorem isObject_of_get {k : String} {v x : Json} (h : v.get k = some x) : v.isObject = true := by
  cases v with
  | obj fields => rfl
  | _ => simp [get] at h

theorem get_set_self {k : String} {v : Json} (x : Json) (h : v.isObject = true) :
    (v.set k x).get k = some x := by
  cases v with
  | obj fields => exact OrdMap.find?_insert_self k x fields
  | _ => cases h

theorem get_set_ne {j k : String} (h : j ≠ k) (x v : Json) : (v.set k x).get j = v.get j := by
  cases v with
  | obj fields => exact OrdMap.find?_insert_ne h x fields
  | _ => rfl

/-! ## Records

A record type is read from an object by field name, or from an array by field position. -/

/-- The `i`-th field of a record with `n` fields, called `k`; a shorter array leaves the last fields
to their defaults. -/
def field (v : Json) (n i : Nat) (k : String) : Option Json :=
  match v with
  | .obj fields => OrdMap.find? k fields
  | .arr items => if items.length ≤ n then items[i]? else none
  | _ => none

def onlyFields (v : Json) (names : List String) : Bool :=
  match v with
  | .obj fields => fields.all fun f => names.contains f.1
  | _ => true

@[simp] theorem field_obj (n i : Nat) (k : String) (fields : List (String × Json)) :
    (Json.obj fields).field n i k = OrdMap.find? k fields := rfl

end Json

/-! ## Lines -/

inductive Line where
  | doc (v : Json)
  | text (s : String)
  deriving DecidableEq, Inhabited

namespace Line

def parse : Line → Option Json
  | .doc v => some v
  | .text _ => none

def render (v : Json) : Line := .doc v

/-- The code points of the Unicode `White_Space` property. -/
def isWhiteSpace (c : Char) : Bool :=
  (0x9 ≤ c.toNat && c.toNat ≤ 0xD) || (0x2000 ≤ c.toNat && c.toNat ≤ 0x200A) ||
    [0x20, 0x85, 0xA0, 0x1680, 0x2028, 0x2029, 0x202F, 0x205F, 0x3000].contains c.toNat

def isBlank : Line → Bool
  | .doc _ => false
  | .text s => s.toList.all isWhiteSpace

@[simp] theorem parse_render (v : Json) : (render v).parse = some v := rfl

@[simp] theorem parse_text (s : String) : (text s).parse = none := rfl

end Line

end Emucap.Lib
