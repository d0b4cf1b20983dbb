import Mathlib.Logic.Function.Iterate

/-!
# Lists that grow

A list that is stored and read back many times, each reading passing its items through a function `f`, and that
gets new items at its end only: `Extends f xs ys`. Without new items it is `Reread f xs ys`.
-/

namespace Emucap.Lib

variable {α : Type} {f : α → α} {xs ys zs : List α}

def Reread (f : α → α) (xs ys : List α) : Prop := ∃ n, ys = xs.map f^[n]

def Extends (f : α → α) (xs ys : List α) : Prop := ∃ n more, ys = xs.map f^[n] ++ more

theorem map_iterate_map_iterate (f : α → α) (m n : ℕ) (xs : List α) :
    (xs.map f^[n]).map f^[m] = xs.map f^[m + n] := by
  rw [List.map_map, Function.iterate_add]

theorem Reread.refl (f : α → α) (xs : List α) : Reread f xs xs := ⟨0, by simp⟩

theorem Reread.once (f : α → α) (xs : List α) : Reread f xs (xs.map f) := ⟨1, by simp⟩

theorem Reread.trans (h : Reread f xs ys) (h' : Reread f ys zs) : Reread f xs zs := by
  obtain ⟨n, rfl⟩ := h
  obtain ⟨m, rfl⟩ := h'
  exact ⟨m + n, map_iterate_map_iterate f m n xs⟩

theorem Reread.extends (h : Reread f xs ys) : Extends f xs ys := by
  obtain ⟨n, rfl⟩ := h
  exact ⟨n, [], by simp⟩

theorem Extends.append (f : α → α) (xs more : List α) : Extends f xs ((xs ++ more).map f) :=
  ⟨1, more.map f, by simp⟩

theorem Extends.trans (h : Extends f xs ys) (h' : Extends f ys zs) : Extends f xs zs := by
  obtain ⟨n, more, rfl⟩ := h
  obtain ⟨m, more', rfl⟩ := h'
  refine ⟨m + n, more.map f^[m] ++ more', ?_⟩
  rw [List.map_append, map_iterate_map_iterate, List.append_assoc]

end Emucap.Lib
