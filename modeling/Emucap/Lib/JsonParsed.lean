import Emucap.Lib.JsonParse
import Emucap.Lib.JsonValues

/-!
# What the reader of documents gives

A document that has been read nests no deeper than the reader follows it, and its objects are maps whose entries stand
in the order of the keys. Both hold of every part that has been read, so they hold of what is made of the parts.
-/

namespace Emucap.Lib

namespace OrdMap
variable {κ α : Type} [LinearOrder κ] {k : κ} {v : α} {m : List (κ × α)}

theorem mem_insert {entry : κ × α} (h : entry ∈ insert k v m) : entry = (k, v) ∨ entry ∈ m := by
  induction m with
  | nil => exact .inl (List.mem_singleton.mp h)
  | cons first rest ih =>
    rw [insert] at h
    split_ifs at h with heq hlt
    · rcases List.mem_cons.mp h with h | h
      · exact .inl h
      · exact .inr (List.mem_cons_of_mem _ h)
    · exact List.mem_cons.mp h
    · rcases List.mem_cons.mp h with h | h
      · exact .inr (h ▸ List.mem_cons_self)
      · exact (ih h).imp_right (List.mem_cons_of_mem _)

theorem ascending_insert (h : (m.map Prod.fst).Pairwise (· < ·)) :
    ((insert k v m).map Prod.fst).Pairwise (· < ·) := by
  rw [List.pairwise_map] at h ⊢
  induction m with
  | nil => exact List.pairwise_singleton _ _
  | cons first rest ih =>
    obtain ⟨hfirst, hrest⟩ := List.pairwise_cons.mp h
    rw [insert]
    split_ifs with heq hlt
    · exact List.pairwise_cons.mpr ⟨fun e he => by rw [heq]; exact hfirst e he, hrest⟩
    · refine List.pairwise_cons.mpr ⟨fun e he => ?_, h⟩
      rcases List.mem_cons.mp he with rfl | he
      · exact hlt
      · exact hlt.trans (hfirst e he)
    · refine List.pairwise_cons.mpr ⟨fun e he => ?_, ih hrest⟩
      rcases mem_insert he with rfl | he
      · exact lt_of_le_of_ne (not_lt.mp hlt) (Ne.symm heq)
      · exact hfirst e he

end OrdMap

namespace Json

variable {floatBits : List Char → Option UInt64}

def Gives {α : Type} (P : α → Prop) (x : Option (α × List Char)) : Prop := ∀ a rest, x = some (a, rest) → P a

/-- A document that nests so deep at most, whose objects are in order. -/
def Held (levels : ℕ) (v : Json) : Prop := v.Ordered ∧ v.nesting ≤ levels

def IsScalar (v : Json) : Prop := v.asArray = none ∧ v.asObject = none

theorem IsScalar.held {v : Json} (h : v.IsScalar) (levels : ℕ) : v.Held levels := by
  refine ⟨(all_scalar h.1 h.2).mpr ?_, ?_⟩
  · cases v with
    | obj fields => exact absurd h.2 nofun
    | _ => trivial
  · cases v with
    | arr items => exact absurd h.1 nofun
    | obj fields => exact absurd h.2 nofun
    | _ => exact Nat.zero_le _

theorem gives_integer {negative : Bool} {whole : List Char} {v : Json} (h : integer floatBits negative whole = some v) :
    v.IsScalar := by
  simp only [integer] at h
  split_ifs at h
  · exact Option.some.inj h ▸ ⟨rfl, rfl⟩
  · exact Option.some.inj h ▸ ⟨rfl, rfl⟩
  · obtain ⟨bits, -, rfl⟩ := Option.map_eq_some_iff.mp h
    exact ⟨rfl, rfl⟩
  · obtain ⟨bits, -, rfl⟩ := Option.map_eq_some_iff.mp h
    exact ⟨rfl, rfl⟩

theorem gives_parseNumber {negative : Bool} {text : List Char} :
    Gives IsScalar (parseNumber floatBits negative text) := by
  intro v rest h
  simp only [parseNumber] at h
  split at h
  · exact absurd h nofun
  · simp only [Option.bind_eq_bind, Option.bind_eq_some_iff] at h
    obtain ⟨fraction, -, exponent, -, h⟩ := h
    split at h
    · obtain ⟨number, hnumber, h⟩ := Option.bind_eq_some_iff.mp h
      obtain ⟨rfl, -⟩ := Prod.mk.inj (Option.some.inj h)
      exact gives_integer hnumber
    · obtain ⟨bits, -, h⟩ := Option.bind_eq_some_iff.mp h
      obtain ⟨rfl, -⟩ := Prod.mk.inj (Option.some.inj h)
      exact ⟨rfl, rfl⟩

theorem gives_parseScalar {text : List Char} : Gives IsScalar (parseScalar floatBits text) := by
  intro v rest h
  unfold parseScalar at h
  split at h
  · exact (Prod.mk.inj (Option.some.inj h)).1 ▸ ⟨rfl, rfl⟩
  · exact (Prod.mk.inj (Option.some.inj h)).1 ▸ ⟨rfl, rfl⟩
  · exact (Prod.mk.inj (Option.some.inj h)).1 ▸ ⟨rfl, rfl⟩
  · obtain ⟨read, -, h⟩ := Option.map_eq_some_iff.mp h
    exact (Prod.mk.inj h).1 ▸ ⟨rfl, rfl⟩
  · exact gives_parseNumber v rest h
  · exact gives_parseNumber v rest h

section parts
variable {value : List Char → Option (Json × List Char)} {P : Json → Prop}

theorem gives_parseItems (hvalue : ∀ text, Gives P (value text)) {bound : ℕ} {text : List Char} :
    Gives (fun items => ∀ item ∈ items, P item) (parseItems value bound text) := by
  induction bound generalizing text with
  | zero => exact nofun
  | succ bound ih =>
    intro items rest h
    simp only [parseItems, Option.bind_eq_bind, Option.bind_eq_some_iff] at h
    obtain ⟨⟨item, more⟩, hitem, ⟨c, behind⟩, -, h⟩ := h
    have hfirst := hvalue text item more hitem
    split_ifs at h
    · obtain ⟨⟨items', last⟩, hitems, h⟩ := Option.bind_eq_some_iff.mp h
      obtain ⟨rfl, -⟩ := Prod.mk.inj (Option.some.inj h)
      exact List.forall_mem_cons.mpr ⟨hfirst, ih items' last hitems⟩
    · obtain ⟨rfl, -⟩ := Prod.mk.inj (Option.some.inj h)
      exact List.forall_mem_singleton.mpr hfirst

theorem gives_parseField (hvalue : ∀ text, Gives P (value text)) {text : List Char} :
    Gives (fun field => P field.2) (parseField value text) := by
  intro field rest h
  simp only [parseField, Option.bind_eq_bind, Option.bind_eq_some_iff] at h
  obtain ⟨⟨c, more⟩, -, h⟩ := h
  split_ifs at h
  simp only [Option.bind_eq_some_iff] at h
  obtain ⟨⟨key, behind⟩, -, ⟨c', behind'⟩, -, h⟩ := h
  split_ifs at h
  obtain ⟨⟨v, last⟩, hv, h⟩ := Option.bind_eq_some_iff.mp h
  obtain ⟨rfl, -⟩ := Prod.mk.inj (Option.some.inj h)
  exact hvalue _ v last hv

/-- Fields that have been read, in the order of their keys. -/
def FieldsHeld (P : Json → Prop) (fields : List (String × Json)) : Prop :=
  (fields.map Prod.fst).Pairwise (· < ·) ∧ ∀ field ∈ fields, P field.2

theorem FieldsHeld.insert {fields : List (String × Json)} {field : String × Json} (h : FieldsHeld P fields)
    (hfield : P field.2) : FieldsHeld P (OrdMap.insert field.1 field.2 fields) := by
  refine ⟨OrdMap.ascending_insert h.1, fun other hother => ?_⟩
  rcases OrdMap.mem_insert hother with rfl | hother
  · exact hfield
  · exact h.2 other hother

theorem gives_parseFields (hvalue : ∀ text, Gives P (value text)) {bound : ℕ} {fields : List (String × Json)}
    {text : List Char} (h : FieldsHeld P fields) : Gives (FieldsHeld P) (parseFields value bound fields text) := by
  induction bound generalizing fields text with
  | zero => exact nofun
  | succ bound ih =>
    intro read rest hread
    simp only [parseFields, Option.bind_eq_bind, Option.bind_eq_some_iff] at hread
    obtain ⟨⟨field, more⟩, hfield, ⟨c, behind⟩, -, hread⟩ := hread
    have hnext := h.insert (gives_parseField hvalue field more hfield)
    split_ifs at hread
    · exact ih hnext read rest hread
    · obtain ⟨rfl, -⟩ := Prod.mk.inj (Option.some.inj hread)
      exact hnext

end parts

theorem gives_parseValue {levels : ℕ} {text : List Char} : Gives (Held levels) (parseValue floatBits levels text) := by
  induction levels generalizing text with
  | zero => exact fun v rest h => (gives_parseScalar v rest h).held 0
  | succ levels ih =>
    intro v rest h
    simp only [parseValue, Option.bind_eq_bind, Option.bind_eq_some_iff] at h
    obtain ⟨⟨c, more⟩, -, h⟩ := h
    split_ifs at h
    · simp only [parseArray, Option.bind_eq_bind, Option.bind_eq_some_iff] at h
      obtain ⟨⟨c', behind⟩, -, h⟩ := h
      split_ifs at h
      · obtain ⟨rfl, -⟩ := Prod.mk.inj (Option.some.inj h)
        exact ⟨all_arr.mpr ⟨trivial, List.forall_mem_nil _⟩, nesting_arr_le.mpr (List.forall_mem_nil _)⟩
      · obtain ⟨⟨items, last⟩, hitems, h⟩ := Option.bind_eq_some_iff.mp h
        obtain ⟨rfl, -⟩ := Prod.mk.inj (Option.some.inj h)
        have hheld := gives_parseItems (fun text => @ih text) items last hitems
        exact ⟨all_arr.mpr ⟨trivial, fun item hitem => (hheld item hitem).1⟩,
          nesting_arr_le.mpr fun item hitem => (hheld item hitem).2⟩
    · simp only [parseObject, Option.bind_eq_bind, Option.bind_eq_some_iff] at h
      obtain ⟨⟨c', behind⟩, -, h⟩ := h
      split_ifs at h
      · obtain ⟨rfl, -⟩ := Prod.mk.inj (Option.some.inj h)
        exact ⟨all_obj.mpr ⟨List.Pairwise.nil, List.forall_mem_nil _⟩,
          nesting_obj_le.mpr (List.forall_mem_nil _)⟩
      · obtain ⟨⟨fields, last⟩, hfields, h⟩ := Option.bind_eq_some_iff.mp h
        obtain ⟨rfl, -⟩ := Prod.mk.inj (Option.some.inj h)
        have hheld := gives_parseFields (fun text => @ih text) ⟨List.Pairwise.nil, List.forall_mem_nil _⟩ fields last hfields
        exact ⟨all_obj.mpr ⟨hheld.1, fun field hfield => (hheld.2 field hfield).1⟩,
          nesting_obj_le.mpr fun field hfield => (hheld.2 field hfield).2⟩
    · exact (gives_parseScalar v rest h).held (levels + 1)

theorem fromStr_held {text : List Char} {v : Json} (h : fromStr floatBits text = some v) : v.Held maxNesting := by
  simp only [fromStr, Option.bind_eq_bind, Option.bind_eq_some_iff] at h
  obtain ⟨⟨read, rest⟩, hread, h⟩ := h
  split_ifs at h
  obtain rfl := Option.some.inj h
  exact gives_parseValue read rest hread

theorem fromSlice_held {bytes : List UInt8} {v : Json} (h : fromSlice floatBits bytes = some v) :
    v.Held maxNesting := by
  obtain ⟨text, -, htext⟩ := Option.bind_eq_some_iff.mp h
  exact fromStr_held htext

theorem Held.get {levels : ℕ} {v member : Json} {key : String} (h : v.Held (levels + 1))
    (hget : v.get key = some member) : member.Held levels := by
  cases v with
  | obj fields =>
    have hmem : (key, member) ∈ fields := OrdMap.mem_of_find? hget
    exact ⟨(all_obj.mp h.1).2 _ hmem, nesting_obj_le.mp h.2 _ hmem⟩
  | _ => exact absurd hget nofun

theorem Held.mono {levels levels' : ℕ} {v : Json} (h : v.Held levels) (hle : levels ≤ levels') : v.Held levels' :=
  ⟨h.1, h.2.trans hle⟩

end Json

end Emucap.Lib
