import Mathlib.Data.Nat.Notation
import Mathlib.Data.List.GetD

/-!
# Traces that settle

`SettledBy P Q l` says of a list of events, in the order of time, that each event of kind `P` is followed by one of kind
`Q` after which no `P` comes any more; an event that is of both kinds follows itself. An event of neither kind changes
nothing, and one of kind `Q` settles whatever came before.
-/

namespace Emucap.Lib

variable {α : Type} {P Q : α → Prop} {l : List α} {a : α}

def SettledBy (P Q : α → Prop) (l : List α) : Prop :=
  ∀ (i : ℕ) a, l[i]? = some a → P a →
    ∃ (j : ℕ) (b : α), i ≤ j ∧ l[j]? = some b ∧ Q b ∧ ∀ (k : ℕ) c, j < k → l[k]? = some c → ¬ P c

theorem settledBy_of_none (h : ∀ a ∈ l, ¬ P a) : SettledBy P Q l :=
  fun _ a ha hp => absurd hp (h a (List.mem_of_getElem? ha))

theorem getElem?_concat_cases {i : ℕ} {b : α} (h : (l ++ [a])[i]? = some b) :
    l[i]? = some b ∧ i < l.length ∨ i = l.length ∧ b = a := by
  by_cases hi : i < l.length
  · rw [List.getElem?_append_left hi] at h
    exact .inl ⟨h, hi⟩
  · have hlast : i = l.length := by
      have hlt := (List.getElem?_eq_some_iff.mp h).1
      rw [List.length_append, List.length_singleton] at hlt
      omega
    rw [hlast, List.getElem?_concat_length, Option.some.injEq] at h
    exact .inr ⟨hlast, h.symm⟩

theorem SettledBy.concat (h : SettledBy P Q l) (ha : ¬ P a) : SettledBy P Q (l ++ [a]) := by
  intro i b hb hp
  rcases getElem?_concat_cases hb with ⟨hb, -⟩ | ⟨-, rfl⟩
  · obtain ⟨j, c, hij, hc, hq, hlater⟩ := h i b hb hp
    have hj := (List.getElem?_eq_some_iff.mp hc).1
    refine ⟨j, c, hij, by rw [List.getElem?_append_left hj, hc], hq, ?_⟩
    intro k d hk hd
    rcases getElem?_concat_cases hd with ⟨hd, -⟩ | ⟨-, rfl⟩
    · exact hlater k d hk hd
    · exact ha
  · exact absurd hp ha

theorem settledBy_concat (ha : Q a) : SettledBy P Q (l ++ [a]) := by
  intro i b hb _
  have hi := (List.getElem?_eq_some_iff.mp hb).1
  rw [List.length_append, List.length_singleton] at hi
  refine ⟨l.length, a, by omega, List.getElem?_concat_length, ha, ?_⟩
  intro k c hk hc
  have hlt := (List.getElem?_eq_some_iff.mp hc).1
  rw [List.length_append, List.length_singleton] at hlt
  omega

end Emucap.Lib
