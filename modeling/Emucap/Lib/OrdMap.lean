import Mathlib.Order.Defs.LinearOrder
import Mathlib.Order.Basic
import Mathlib.Data.List.Basic
import Mathlib.Order.Lattice

/-!
# Ordered maps as association lists

An ordered map is the list of its entries in key order. `find?` reads a key, `insert` replaces an
entry in place or puts a new one where the order wants it, `erase` removes a key. The lookup laws
hold of every list, ordered or not, so no proof has to carry the order along.
-/

namespace Emucap.Lib.OrdMap

variable {κ α β : Type}

def find? [DecidableEq κ] (k : κ) : List (κ × α) → Option α
  | [] => none
  | (k', v) :: rest => if k = k' then some v else find? k rest

def insert [DecidableEq κ] [LT κ] [DecidableRel (fun a b : κ => a < b)] (k : κ) (v : α) :
    List (κ × α) → List (κ × α)
  | [] => [(k, v)]
  | (k', v') :: rest =>
    if k = k' then (k, v) :: rest
    else if k < k' then (k, v) :: (k', v') :: rest
    else (k', v') :: insert k v rest

def erase [DecidableEq κ] (k : κ) (m : List (κ × α)) : List (κ × α) :=
  m.filter fun e => decide (e.1 ≠ k)

section laws
variable [DecidableEq κ]

@[simp] theorem find?_nil (k : κ) : find? k ([] : List (κ × α)) = none := rfl

theorem find?_cons (k : κ) (e : κ × α) (m : List (κ × α)) :
    find? k (e :: m) = if k = e.1 then some e.2 else find? k m := rfl

@[simp] theorem find?_insert_self [LT κ] [DecidableRel (fun a b : κ => a < b)] (k : κ) (v : α)
    (m : List (κ × α)) : find? k (insert k v m) = some v := by
  induction m with
  | nil => simp [insert, find?]
  | cons e m ih =>
    rw [insert]
    split_ifs with heq hlt
    · simp [find?]
    · simp [find?]
    · rw [find?_cons, if_neg heq, ih]

theorem find?_insert_ne [LT κ] [DecidableRel (fun a b : κ => a < b)] {k j : κ} (h : j ≠ k) (v : α)
    (m : List (κ × α)) : find? j (insert k v m) = find? j m := by
  induction m with
  | nil => simp [insert, find?, h]
  | cons e m ih =>
    rw [insert]
    split_ifs with heq hlt
    · subst heq
      simp [find?_cons, h]
    · simp [find?_cons, h]
    · rw [find?_cons, find?_cons, ih]

theorem find?_insert [LT κ] [DecidableRel (fun a b : κ => a < b)] (k j : κ) (v : α)
    (m : List (κ × α)) : find? j (insert k v m) = if j = k then some v else find? j m := by
  split_ifs with h
  · rw [h, find?_insert_self]
  · exact find?_insert_ne h v m

@[simp] theorem find?_erase_self (k : κ) (m : List (κ × α)) : find? k (erase k m) = none := by
  induction m with
  | nil => rfl
  | cons e m ih =>
    by_cases h : e.1 = k
    · simpa [erase, h] using ih
    · have h' : ¬ k = e.1 := fun hk => h hk.symm
      simpa [erase, h, h', find?_cons] using ih

theorem find?_erase_ne {k j : κ} (h : j ≠ k) (m : List (κ × α)) :
    find? j (erase k m) = find? j m := by
  induction m with
  | nil => rfl
  | cons e m ih =>
    by_cases he : e.1 = k
    · simpa [erase, he, find?_cons, h] using ih
    · simp only [erase, ne_eq, he, not_false_eq_true, decide_true, List.filter_cons_of_pos,
        find?_cons] at ih ⊢
      rw [ih]

theorem mem_of_find? {k : κ} {v : α} {m : List (κ × α)} (h : find? k m = some v) : (k, v) ∈ m := by
  induction m with
  | nil => simp at h
  | cons e m ih =>
    rw [find?_cons] at h
    split_ifs at h with hk
    · obtain rfl := Option.some.inj h
      subst hk
      exact List.mem_cons_self
    · exact List.mem_cons_of_mem _ (ih h)

theorem find?_isSome_iff {k : κ} {m : List (κ × α)} :
    (find? k m).isSome ↔ k ∈ m.map Prod.fst := by
  induction m with
  | nil => simp
  | cons e m ih =>
    rw [find?_cons]
    by_cases h : k = e.1
    · simp [h]
    · simp [h, ih]

theorem insert_of_forall_lt {κ : Type} [LinearOrder κ] {k : κ} (v : α) {m : List (κ × α)}
    (h : ∀ e ∈ m, e.1 < k) : insert k v m = m ++ [(k, v)] := by
  induction m with
  | nil => rfl
  | cons e m ih =>
    have he : e.1 < k := h e List.mem_cons_self
    rw [insert, if_neg he.ne', if_neg he.not_gt, ih fun e' he' => h e' (List.mem_cons_of_mem e he')]
    rfl

end laws

end Emucap.Lib.OrdMap
