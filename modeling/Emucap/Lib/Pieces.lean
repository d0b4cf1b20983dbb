import Mathlib.Data.List.Basic

/-!
# Terminated pieces of a stream

A stream is cut at every occurrence of a separator: `pieces` are the complete pieces before the separators, `unfinished`
is what stands behind the last one. Both only depend on the stream and not on how it arrives: an extension without a
separator extends the unfinished piece, and a separator completes it.
-/

namespace Emucap.Lib

theorem exists_last_of_mem {α : Type} {a : α} {l : List α} (h : a ∈ l) :
    ∃ front back, l = front ++ a :: back ∧ a ∉ back := by
  obtain ⟨as, bs, hsplit, hnone⟩ := List.eq_append_cons_of_mem (List.mem_reverse.mpr h)
  refine ⟨bs.reverse, as.reverse, ?_, by simpa using hnone⟩
  rw [← List.reverse_reverse l, hsplit]
  simp

variable {α : Type} [DecidableEq α] (sep : α)

def pieces (stream : List α) : List (List α) := (stream.splitOn sep).dropLast

def unfinished (stream : List α) : List α := (stream.splitOn sep).getLastD []

variable {sep}

@[simp] theorem pieces_nil : pieces sep [] = [] := by simp [pieces]

@[simp] theorem unfinished_nil : unfinished sep [] = [] := by simp [unfinished]

theorem pieces_of_not_mem {text : List α} (h : sep ∉ text) : pieces sep text = [] ∧ unfinished sep text = text := by
  rw [pieces, unfinished, List.splitOn_eq_singleton h]
  exact ⟨rfl, rfl⟩

theorem pieces_last (front : List α) {back : List α} (h : sep ∉ back) :
    pieces sep (front ++ sep :: back) = front.splitOn sep ∧ unfinished sep (front ++ sep :: back) = back := by
  rw [pieces, unfinished, List.splitOn_append_cons_self, List.splitOn_eq_singleton h]
  simp

theorem pieces_append {more : List α} (h : sep ∉ more) (stream : List α) :
    pieces sep (stream ++ more) = pieces sep stream ∧
      unfinished sep (stream ++ more) = unfinished sep stream ++ more := by
  by_cases hmem : sep ∈ stream
  · obtain ⟨front, back, rfl, hback⟩ := exists_last_of_mem hmem
    have happend : sep ∉ back ++ more := by simp [hback, h]
    rw [List.append_assoc, List.cons_append, (pieces_last front hback).1, (pieces_last front hback).2]
    exact pieces_last front happend
  · rw [(pieces_of_not_mem hmem).1, (pieces_of_not_mem hmem).2]
    exact pieces_of_not_mem (by simp [hmem, h])

theorem pieces_append_sep {more : List α} (h : sep ∉ more) (stream : List α) :
    pieces sep (stream ++ (more ++ [sep])) = pieces sep stream ++ [unfinished sep stream ++ more] ∧
      unfinished sep (stream ++ (more ++ [sep])) = [] := by
  obtain ⟨hpieces, hunfinished⟩ := pieces_last (stream ++ more) (List.not_mem_nil : sep ∉ [])
  obtain ⟨hmore, hrest⟩ := pieces_append h stream
  rw [← List.append_assoc, hpieces, ← hmore, ← hrest]
  refine ⟨?_, hunfinished⟩
  have hne : (stream ++ more).splitOn sep ≠ [] := List.splitOn_ne_nil _ _
  rw [pieces, unfinished, List.getLastD_eq_getLast?, List.getLast?_eq_some_getLast hne, Option.getD_some,
    List.dropLast_concat_getLast hne]

end Emucap.Lib
