import Mathlib.Data.List.Nodup

/-!
# Tables

A table holds rows under keys that the rows themselves carry, each key once. `find` reads the row of a
key and `put` writes one, in the place of the row its key has or at the end.
-/

namespace Emucap.Lib

structure Table {α κ : Type} (key : α → κ) where
  rows : List α
  nodup : (rows.map key).Nodup

namespace Table

variable {α κ : Type} [DecidableEq κ] {key : α → κ}

def empty : Table key := ⟨[], List.nodup_nil⟩

def find (t : Table key) (k : κ) : Option α := t.rows.find? fun x => key x = k

def putRow (key : α → κ) (rows : List α) (x : α) : List α :=
  if rows.any fun y => key y = key x then rows.map fun y => if key y = key x then x else y else rows ++ [x]

theorem mem_putRow {rows : List α} {x y : α} : y ∈ putRow key rows x ↔ y = x ∨ y ∈ rows ∧ key y ≠ key x := by
  unfold putRow
  split_ifs with hany
  · obtain ⟨z, hz, hkey⟩ := List.any_eq_true.mp hany
    simp only [decide_eq_true_eq] at hkey
    rw [List.mem_map]
    constructor
    · rintro ⟨w, hw, rfl⟩
      split_ifs with heq
      · exact .inl rfl
      · exact .inr ⟨hw, heq⟩
    · rintro (rfl | ⟨hy, hne⟩)
      · exact ⟨z, hz, by rw [if_pos hkey]⟩
      · exact ⟨y, hy, by rw [if_neg hne]⟩
  · have hne (w : α) (hw : w ∈ rows) : key w ≠ key x := by
      intro heq
      exact hany (List.any_eq_true.mpr ⟨w, hw, by simpa using heq⟩)
    rw [List.mem_append, List.mem_singleton]
    constructor
    · rintro (hy | rfl)
      · exact .inr ⟨hy, hne y hy⟩
      · exact .inl rfl
    · rintro (rfl | ⟨hy, -⟩)
      · exact .inr rfl
      · exact .inl hy

theorem nodup_putRow {rows : List α} (h : (rows.map key).Nodup) (x : α) : ((putRow key rows x).map key).Nodup := by
  unfold putRow
  split_ifs with hany
  · have hsame : key ∘ (fun y => if key y = key x then x else y) = key := by
      funext y
      by_cases hy : key y = key x
      · simp [hy]
      · simp [hy]
    rw [List.map_map, hsame]
    exact h
  · rw [List.map_append, List.nodup_append]
    refine ⟨h, List.nodup_singleton _, ?_⟩
    intro k hk k' hk' heq
    obtain ⟨y, hy, rfl⟩ := List.mem_map.mp hk
    rw [List.map_singleton, List.mem_singleton] at hk'
    exact hany (List.any_eq_true.mpr ⟨y, hy, by simp [heq, hk']⟩)

def put (t : Table key) (x : α) : Table key := ⟨putRow key t.rows x, nodup_putRow t.nodup x⟩

@[simp] theorem mem_rows_put {t : Table key} {x y : α} : y ∈ (t.put x).rows ↔ y = x ∨ y ∈ t.rows ∧ key y ≠ key x :=
  mem_putRow

theorem find_eq_some {t : Table key} {k : κ} {x : α} : t.find k = some x ↔ x ∈ t.rows ∧ key x = k := by
  constructor
  · intro h
    exact ⟨List.mem_of_find?_eq_some h, by simpa using List.find?_some h⟩
  · rintro ⟨hx, rfl⟩
    obtain ⟨y, hy⟩ : ∃ y, t.find (key x) = some y :=
      Option.isSome_iff_exists.mp (List.find?_isSome.mpr ⟨x, hx, by simp⟩)
    have hmem : y ∈ t.rows := List.mem_of_find?_eq_some hy
    have hkey : key y = key x := by simpa using List.find?_some hy
    rw [hy, List.inj_on_of_nodup_map t.nodup hmem hx hkey]

@[simp] theorem find_put_self (t : Table key) (x : α) : (t.put x).find (key x) = some x :=
  (find_eq_some).mpr ⟨(mem_rows_put).mpr (.inl rfl), rfl⟩

theorem find_put_of_ne {t : Table key} {x : α} {k : κ} (h : k ≠ key x) : (t.put x).find k = t.find k := by
  ext y
  simp only [find_eq_some, mem_rows_put]
  constructor
  · rintro ⟨rfl | ⟨hy, -⟩, rfl⟩
    · exact absurd rfl h
    · exact ⟨hy, rfl⟩
  · rintro ⟨hy, rfl⟩
    exact ⟨.inr ⟨hy, h⟩, rfl⟩

end Table

end Emucap.Lib
