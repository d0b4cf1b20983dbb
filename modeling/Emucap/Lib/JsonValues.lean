import Emucap.Lib.JsonText
import Mathlib.Data.List.Sort

/-!
# Documents as values

Two documents are the same value where they differ in the order of their keys only: `sortKeys` puts the keys of every
object in order, and the canonical text of a document is the compact text of its sorted form. `All p` says `p` of a
document and of everything below it.
-/

namespace Emucap.Lib.Json

theorem documentInduction {motive : Json → Prop}
    (scalar : ∀ v, v.asArray = none → v.asObject = none → motive v)
    (array : ∀ items, (∀ item ∈ items, motive item) → motive (.arr items))
    (object : ∀ fields, (∀ field ∈ fields, motive field.2) → motive (.obj fields)) (v : Json) : motive v := by
  refine Json.rec (motive_1 := motive) (motive_2 := fun items => ∀ item ∈ items, motive item)
    (motive_3 := fun fields => ∀ field ∈ fields, motive field.2) (motive_4 := fun field => motive field.2)
    (scalar _ rfl rfl) (fun _ => scalar _ rfl rfl) (fun _ => scalar _ rfl rfl) (fun _ => scalar _ rfl rfl)
    (fun _ => scalar _ rfl rfl) (fun _ => scalar _ rfl rfl) (fun items ih => array items ih)
    (fun fields ih => object fields ih) (List.forall_mem_nil _)
    (fun _ _ hhead htail => List.forall_mem_cons.mpr ⟨hhead, htail⟩) (List.forall_mem_nil _)
    (fun _ _ hhead htail => List.forall_mem_cons.mpr ⟨hhead, htail⟩) (fun _ _ ih => ih) v

/-! ## Everything in a document -/

section all
variable (p : Json → Prop)

mutual

def All : Json → Prop
  | .arr items => p (.arr items) ∧ AllItems items
  | .obj fields => p (.obj fields) ∧ AllFields fields
  | v => p v

def AllItems : List Json → Prop
  | [] => True
  | item :: items => All item ∧ AllItems items

def AllFields : List (String × Json) → Prop
  | [] => True
  | (_, value) :: fields => All value ∧ AllFields fields

end

theorem allItems_iff {items : List Json} : AllItems p items ↔ ∀ item ∈ items, item.All p := by
  induction items with
  | nil => simp [AllItems]
  | cons item items ih => simp [AllItems, ih]

theorem allFields_iff {fields : List (String × Json)} : AllFields p fields ↔ ∀ field ∈ fields, field.2.All p := by
  induction fields with
  | nil => simp [AllFields]
  | cons field fields ih => simp [AllFields, ih]

end all

variable {p : Json → Prop}

theorem all_arr {items : List Json} : (Json.arr items).All p ↔ p (.arr items) ∧ ∀ item ∈ items, item.All p := by
  rw [All, allItems_iff]

theorem all_obj {fields : List (String × Json)} :
    (Json.obj fields).All p ↔ p (.obj fields) ∧ ∀ field ∈ fields, field.2.All p := by
  rw [All, allFields_iff]

theorem all_scalar {v : Json} (harray : v.asArray = none) (hobject : v.asObject = none) : v.All p ↔ p v := by
  cases v with
  | arr items => exact absurd harray nofun
  | obj fields => exact absurd hobject nofun
  | _ => rw [All] <;> exact nofun

def IsInteger : Json → Prop
  | .nat n => n < 2 ^ 64
  | .neg n => n < 2 ^ 63
  | .float _ => False
  | _ => True

def DistinctKeys : Json → Prop
  | .obj fields => (fields.map Prod.fst).Nodup
  | _ => True

def AscendingKeys : Json → Prop
  | .obj fields => (fields.map Prod.fst).Pairwise (· < ·)
  | _ => True

def Integral (v : Json) : Prop := v.All IsInteger

def Mapped (v : Json) : Prop := v.All DistinctKeys

/-- The objects are maps whose entries stand in the order of the keys. -/
def Ordered (v : Json) : Prop := v.All AscendingKeys

/-! ## How deep a document nests -/

mutual

def nesting : Json → ℕ
  | .arr items => itemsNesting items + 1
  | .obj fields => fieldsNesting fields + 1
  | _ => 0

def itemsNesting : List Json → ℕ
  | [] => 0
  | item :: items => max (nesting item) (itemsNesting items)

def fieldsNesting : List (String × Json) → ℕ
  | [] => 0
  | (_, value) :: fields => max (nesting value) (fieldsNesting fields)

end

theorem itemsNesting_le {items : List Json} {n : ℕ} : itemsNesting items ≤ n ↔ ∀ item ∈ items, item.nesting ≤ n := by
  induction items with
  | nil => simp [itemsNesting]
  | cons item items ih => simp [itemsNesting, ih]

theorem fieldsNesting_le {fields : List (String × Json)} {n : ℕ} :
    fieldsNesting fields ≤ n ↔ ∀ field ∈ fields, field.2.nesting ≤ n := by
  induction fields with
  | nil => simp [fieldsNesting]
  | cons field fields ih => simp [fieldsNesting, ih]

theorem nesting_arr_le {items : List Json} {n : ℕ} :
    (Json.arr items).nesting ≤ n + 1 ↔ ∀ item ∈ items, item.nesting ≤ n := by
  rw [nesting, Nat.add_le_add_iff_right, itemsNesting_le]

theorem nesting_obj_le {fields : List (String × Json)} {n : ℕ} :
    (Json.obj fields).nesting ≤ n + 1 ↔ ∀ field ∈ fields, field.2.nesting ≤ n := by
  rw [nesting, Nat.add_le_add_iff_right, fieldsNesting_le]

/-! ## Sorted keys -/

def byKey {α : Type} (fields : List (String × α)) : List (String × α) := fields.mergeSort fun a b => a.1 ≤ b.1

mutual

def sortKeys : Json → Json
  | .arr items => .arr (sortItems items)
  | .obj fields => .obj (byKey (sortFields fields))
  | v => v

def sortItems : List Json → List Json
  | [] => []
  | item :: items => sortKeys item :: sortItems items

def sortFields : List (String × Json) → List (String × Json)
  | [] => []
  | (key, value) :: fields => (key, sortKeys value) :: sortFields fields

end

/-- Two documents that differ in the order of their keys only. -/
def SameValue (v w : Json) : Prop := v.sortKeys = w.sortKeys

theorem sortItems_eq (items : List Json) : sortItems items = items.map sortKeys := by
  induction items with
  | nil => rfl
  | cons item items ih => rw [sortItems, ih, List.map_cons]

theorem sortFields_eq (fields : List (String × Json)) :
    sortFields fields = fields.map fun field => (field.1, field.2.sortKeys) := by
  induction fields with
  | nil => rfl
  | cons field fields ih => rw [sortFields, ih, List.map_cons]

theorem sortKeys_arr (items : List Json) : (Json.arr items).sortKeys = .arr (items.map sortKeys) := by
  rw [sortKeys, sortItems_eq]

theorem sortKeys_obj (fields : List (String × Json)) :
    (Json.obj fields).sortKeys = .obj (byKey (fields.map fun field => (field.1, field.2.sortKeys))) := by
  rw [sortKeys, sortFields_eq]

theorem sortKeys_scalar {v : Json} (harray : v.asArray = none) (hobject : v.asObject = none) : v.sortKeys = v := by
  cases v with
  | arr items => exact absurd harray nofun
  | obj fields => exact absurd hobject nofun
  | _ => rw [sortKeys] <;> exact nofun

theorem byKey_map {α β : Type} (f : α → β) (fields : List (String × α)) :
    byKey (fields.map fun field => (field.1, f field.2)) = (byKey fields).map fun field => (field.1, f field.2) := by
  rw [byKey, byKey, List.map_mergeSort]
  exact fun _ _ _ _ => rfl

theorem mem_byKey {α : Type} {fields : List (String × α)} {field : String × α} :
    field ∈ byKey fields ↔ field ∈ fields :=
  (List.mergeSort_perm fields _).mem_iff

theorem forall_mem_sorted {P : Json → Prop} {fields : List (String × Json)} :
    (∀ field ∈ byKey (fields.map fun field => (field.1, field.2.sortKeys)), P field.2) ↔
      ∀ field ∈ fields, P field.2.sortKeys := by
  simp only [mem_byKey, List.forall_mem_map]

theorem ascending_byKey {α : Type} {fields : List (String × α)} (h : (fields.map Prod.fst).Nodup) :
    ((byKey fields).map Prod.fst).Pairwise (· < ·) := by
  have hsorted : (byKey fields).Pairwise fun a b => a.1 ≤ b.1 := by
    have hle : (byKey fields).Pairwise fun a b => decide (a.1 ≤ b.1) = true := by
      apply List.pairwise_mergeSort
      · intro a b c hab hbc
        exact decide_eq_true (le_trans (of_decide_eq_true hab) (of_decide_eq_true hbc))
      · intro a b
        simpa using le_total a.1 b.1
    exact hle.imp of_decide_eq_true
  have hnodup : ((byKey fields).map Prod.fst).Nodup := ((List.mergeSort_perm fields _).map _).nodup_iff.mpr h
  rw [List.pairwise_map]
  rw [List.nodup_iff_pairwise_ne, List.pairwise_map] at hnodup
  exact (hsorted.and hnodup).imp fun h => lt_of_le_of_ne h.1 h.2

theorem byKey_of_ascending {α : Type} {fields : List (String × α)} (h : (fields.map Prod.fst).Pairwise (· < ·)) :
    byKey fields = fields := by
  rw [List.pairwise_map] at h
  exact List.mergeSort_of_pairwise (h.imp fun hlt => by simpa using hlt.le)

theorem sortKeys_of_ordered {v : Json} : v.Ordered → v.sortKeys = v := by
  induction v using documentInduction with
  | scalar v harray hobject => exact fun _ => sortKeys_scalar harray hobject
  | array items ih =>
    intro h
    have hitems := (all_arr.mp h).2
    rw [sortKeys_arr, List.map_congr_left fun item hitem => ih item hitem (hitems item hitem), List.map_id']
  | object fields ih =>
    intro h
    obtain ⟨hkeys, hfields⟩ := all_obj.mp h
    have hmap : fields.map (fun field => (field.1, field.2.sortKeys)) = fields := by
      rw [List.map_congr_left fun field hfield => by rw [ih field hfield (hfields field hfield)], List.map_id']
    rw [sortKeys_obj, hmap, byKey_of_ascending hkeys]

theorem ordered_sortKeys {v : Json} : v.Mapped → v.sortKeys.Ordered := by
  induction v using documentInduction with
  | scalar v harray hobject =>
    intro _
    rw [sortKeys_scalar harray hobject, Ordered, all_scalar harray hobject]
    cases v with
    | obj fields => exact absurd hobject nofun
    | _ => trivial
  | array items ih =>
    intro h
    have hitems := (all_arr.mp h).2
    rw [sortKeys_arr]
    refine all_arr.mpr ⟨trivial, List.forall_mem_map.mpr fun item hitem => ih item hitem (hitems item hitem)⟩
  | object fields ih =>
    intro h
    obtain ⟨hkeys, hfields⟩ := all_obj.mp h
    rw [sortKeys_obj]
    have hascending : ((fields.map fun field => (field.1, field.2.sortKeys)).map Prod.fst).Nodup := by
      rw [List.map_map]
      exact hkeys
    exact all_obj.mpr ⟨ascending_byKey hascending,
      (forall_mem_sorted).mpr fun field hfield => ih field hfield (hfields field hfield)⟩

theorem sortKeys_sortKeys {v : Json} (h : v.Mapped) : v.sortKeys.sortKeys = v.sortKeys :=
  sortKeys_of_ordered (ordered_sortKeys h)

theorem integral_sortKeys {v : Json} : v.Integral → v.sortKeys.Integral := by
  induction v using documentInduction with
  | scalar v harray hobject =>
    rw [sortKeys_scalar harray hobject]
    exact id
  | array items ih =>
    intro h
    have hitems := (all_arr.mp h).2
    rw [sortKeys_arr]
    refine all_arr.mpr ⟨trivial, List.forall_mem_map.mpr fun item hitem => ih item hitem (hitems item hitem)⟩
  | object fields ih =>
    intro h
    have hfields := (all_obj.mp h).2
    rw [sortKeys_obj]
    exact all_obj.mpr ⟨trivial, (forall_mem_sorted).mpr fun field hfield => ih field hfield (hfields field hfield)⟩

theorem nesting_sortKeys {v : Json} {n : ℕ} : v.sortKeys.nesting ≤ n ↔ v.nesting ≤ n := by
  induction v using documentInduction generalizing n with
  | scalar v harray hobject => rw [sortKeys_scalar harray hobject]
  | array items ih =>
    rw [sortKeys_arr]
    cases n with
    | zero => simp [nesting]
    | succ n =>
      rw [nesting_arr_le, nesting_arr_le, List.forall_mem_map]
      exact forall₂_congr fun item hitem => ih item hitem
  | object fields ih =>
    rw [sortKeys_obj]
    cases n with
    | zero => simp [nesting]
    | succ n =>
      rw [nesting_obj_le, nesting_obj_le, @forall_mem_sorted (·.nesting ≤ n) fields]
      exact forall₂_congr fun field hfield => ih field hfield

/-! ## The canonical text -/

section text
variable (floatText : UInt64 → List Char)

theorem compactItems_eq (items : List Json) : compactItems floatText items = items.map (compact floatText) := by
  induction items with
  | nil => rfl
  | cons item items ih => rw [compactItems, ih, List.map_cons]

theorem compactFields_eq (fields : List (String × Json)) :
    compactFields floatText fields = fields.map fun field => (field.1, field.2.compact floatText) := by
  induction fields with
  | nil => rfl
  | cons field fields ih => rw [compactFields, ih, List.map_cons]

theorem canonicalItems_eq (items : List Json) : canonicalItems floatText items = items.map (canonical floatText) := by
  induction items with
  | nil => rfl
  | cons item items ih => rw [canonicalItems, ih, List.map_cons]

theorem canonicalFields_eq (fields : List (String × Json)) :
    canonicalFields floatText fields = fields.map fun field => (field.1, field.2.canonical floatText) := by
  induction fields with
  | nil => rfl
  | cons field fields ih => rw [canonicalFields, ih, List.map_cons]

theorem canonical_eq (v : Json) : v.canonical floatText = v.sortKeys.compact floatText := by
  induction v using documentInduction with
  | scalar v harray hobject =>
    rw [sortKeys_scalar harray hobject]
    cases v with
    | arr items => exact absurd harray nofun
    | obj fields => exact absurd hobject nofun
    | _ => rw [canonical, compact] <;> exact nofun
  | array items ih =>
    rw [sortKeys_arr, canonical, compact, canonicalItems_eq, compactItems_eq, List.map_map, List.map_congr_left ih]
    rfl
  | object fields ih =>
    have hfields : fields.map (fun field => (field.1, field.2.canonical floatText)) =
        (fields.map fun field => (field.1, field.2.sortKeys)).map fun field =>
          (field.1, field.2.compact floatText) := by
      rw [List.map_map]
      exact List.map_congr_left fun field hfield => by rw [ih field hfield]; rfl
    rw [sortKeys_obj, canonical, compact, canonicalFields_eq, compactFields_eq, ← byKey_map, ← hfields]
    rfl

end text

end Emucap.Lib.Json
