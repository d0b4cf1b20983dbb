import Mathlib.Data.List.Basic
import Mathlib.Data.Nat.Notation

/-!
# Buffers and blocks

`overwrite` copies elements into a buffer of fixed length. `absorb n f s xs` feeds the whole blocks of length `n` of `xs` to `f`, and `remainder n xs` is what is
left over. A consumer that keeps the left-over elements in a buffer sees the same blocks however the
sequence is split (`absorb_append`, `remainder_append`).
-/

namespace Emucap.Lib

variable {α σ : Type*} {n : ℕ}

/-! ## Copying into a buffer -/

/-- The buffer with `src` copied to the positions from `offset` on. -/
def overwrite (buffer : List α) (offset : ℕ) (src : List α) : List α :=
  buffer.take offset ++ src ++ buffer.drop (offset + src.length)

theorem length_overwrite {buffer : List α} {offset : ℕ} {src : List α} (h : offset + src.length ≤ buffer.length) :
    (overwrite buffer offset src).length = buffer.length := by
  simp only [overwrite, List.length_append, List.length_take, List.length_drop]
  omega

theorem take_overwrite {buffer : List α} {offset : ℕ} {src : List α} (h : offset ≤ buffer.length) :
    (overwrite buffer offset src).take (offset + src.length) = buffer.take offset ++ src := by
  have hlen : (buffer.take offset ++ src).length = offset + src.length := by
    rw [List.length_append, List.length_take]
    omega
  rw [overwrite, ← hlen, List.take_left]

/-! ## Whole blocks -/

def absorb (n : ℕ) (f : σ → List α → σ) (s : σ) (xs : List α) : σ :=
  (List.range (xs.length / n)).foldl (fun s i => f s ((xs.drop (n * i)).take n)) s

def remainder (n : ℕ) (xs : List α) : List α := xs.drop (n * (xs.length / n))

theorem length_remainder (xs : List α) : (remainder n xs).length = xs.length % n := by
  have hdiv := Nat.div_add_mod xs.length n
  simp only [remainder, List.length_drop]
  omega

@[simp] theorem absorb_nil {f : σ → List α → σ} {s : σ} : absorb n f s [] = s := by simp [absorb]

@[simp] theorem remainder_nil : remainder n ([] : List α) = [] := by simp [remainder]

theorem absorb_of_lt {f : σ → List α → σ} {s : σ} {xs : List α} (h : xs.length < n) : absorb n f s xs = s := by
  rw [absorb, Nat.div_eq_of_lt h]
  rfl

theorem remainder_of_lt {xs : List α} (h : xs.length < n) : remainder n xs = xs := by
  rw [remainder, Nat.div_eq_of_lt h]
  rfl

theorem length_block_append {block : List α} (hn : 0 < n) (hblock : block.length = n) (xs : List α) :
    (block ++ xs).length / n = xs.length / n + 1 := by
  rw [List.length_append, hblock, Nat.add_comm, Nat.add_div_right _ hn]

theorem drop_block_append {block : List α} (hblock : block.length = n) (xs : List α) (i : ℕ) :
    (block ++ xs).drop (n * (i + 1)) = xs.drop (n * i) := by
  rw [Nat.mul_succ, Nat.add_comm, ← hblock, ← List.drop_drop, List.drop_left]

theorem absorb_block {f : σ → List α → σ} {s : σ} {block : List α} (hn : 0 < n) (hblock : block.length = n)
    (xs : List α) : absorb n f s (block ++ xs) = absorb n f (f s block) xs := by
  have hfirst : (block ++ xs).take n = block := by rw [← hblock, List.take_left]
  simp only [absorb, length_block_append hn hblock, List.range_succ_eq_map, List.foldl_cons, List.foldl_map,
    Nat.mul_zero, List.drop_zero, hfirst]
  congr 1
  funext s i
  rw [drop_block_append hblock]

theorem remainder_block {block : List α} (hn : 0 < n) (hblock : block.length = n) (xs : List α) :
    remainder n (block ++ xs) = remainder n xs := by
  rw [remainder, length_block_append hn hblock, drop_block_append hblock]
  rfl

theorem absorb_one {f : σ → List α → σ} {s : σ} {block : List α} (hn : 0 < n) (hblock : block.length = n) :
    absorb n f s block = f s block := by
  have h := absorb_block (f := f) (s := s) hn hblock []
  rwa [List.append_nil, absorb_nil] at h

theorem remainder_one {block : List α} (hn : 0 < n) (hblock : block.length = n) : remainder n block = [] := by
  have h := remainder_block hn hblock []
  rwa [List.append_nil, remainder_nil] at h

theorem absorb_append (hn : 0 < n) (f : σ → List α → σ) (xs ys : List α) :
    ∀ s, absorb n f s (xs ++ ys) = absorb n f (absorb n f s xs) (remainder n xs ++ ys) ∧
      remainder n (xs ++ ys) = remainder n (remainder n xs ++ ys) := by
  induction hlen : xs.length using Nat.strongRecOn generalizing xs with
  | _ k ih =>
    intro s
    rcases Nat.lt_or_ge xs.length n with hlt | hge
    · rw [absorb_of_lt hlt, remainder_of_lt hlt]
      exact ⟨rfl, rfl⟩
    · have hblock : (xs.take n).length = n := by rw [List.length_take]; omega
      have hshort : (xs.drop n).length < k := by rw [List.length_drop]; omega
      obtain ⟨habsorb, hrest⟩ := ih _ hshort (xs.drop n) rfl (f s (xs.take n))
      rw [← List.take_append_drop n xs, List.append_assoc, absorb_block hn hblock, absorb_block hn hblock,
        remainder_block hn hblock, remainder_block hn hblock]
      exact ⟨habsorb, hrest⟩

end Emucap.Lib
