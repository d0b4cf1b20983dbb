import Emucap.Lib.Stateful
import Mathlib.Data.Nat.Notation
import Mathlib.Algebra.GroupWithZero.Nat

/-!
# Metered programs

A program that pays from a budget of several resources as it goes. `Spends x c out` says that `x` ends with `out` on
every budget that holds `c`, and takes no more than `c` from it; `Fails x c` that it fails on every such budget. A
program that runs over a list spends what it spends on the items.
-/

namespace Emucap.Lib

variable {ρ ε α β γ : Type}

abbrev Metered (ρ ε : Type) := EStateM ε (ρ → ℕ)

namespace Metered

/-- Takes `n` of one resource from the budget. -/
def charge [DecidableEq ρ] (limit : ρ → ε) (r : ρ) (n : ℕ) : Metered ρ ε Unit := fun b =>
  if n ≤ b r then .ok () (fun r' => if r' = r then b r' - n else b r') else .error (limit r) b

/-- Asks whether there is `n` of one resource left. -/
def available (limit : ρ → ε) (r : ρ) (n : ℕ) : Metered ρ ε Unit := fun b =>
  if n ≤ b r then .ok () b else .error (limit r) b

/-! ## Costs -/

def free : ρ → ℕ := fun _ => 0

def both (c c' : ρ → ℕ) : ρ → ℕ := fun r => c r + c' r

def only [DecidableEq ρ] (r : ρ) (n : ℕ) : ρ → ℕ := fun r' => if r' = r then n else 0

def total (c : α → ρ → ℕ) (xs : List α) : ρ → ℕ := fun r => (xs.map fun x => c x r).sum

/-! ## What a program spends -/

/-- How a program ends that leaves `b`. -/
def result (out : Except ε α) (b : ρ → ℕ) : EStateM.Result ε (ρ → ℕ) α :=
  match out with
  | .ok a => .ok a b
  | .error e => .error e b

def Spends (x : Metered ρ ε α) (c : ρ → ℕ) (out : Except ε α) : Prop :=
  ∀ b : ρ → ℕ, (∀ r, c r ≤ b r) → ∃ b', (∀ r, b r - c r ≤ b' r) ∧ x b = result out b'

def Fails (x : Metered ρ ε α) (c : ρ → ℕ) : Prop :=
  ∀ b : ρ → ℕ, (∀ r, c r ≤ b r) → ∃ e b', x b = .error e b'

section rules

variable {x : Metered ρ ε α} {f : α → Metered ρ ε β} {c c' : ρ → ℕ} {a : α} {e : ε}

theorem spends_pure (a : α) : Spends (pure a : Metered ρ ε α) free (.ok a) :=
  fun b _ => ⟨b, fun _ => Nat.sub_le _ _, rfl⟩

theorem spends_throw (e : ε) : Spends (throw e : Metered ρ ε α) free (.error e) :=
  fun b _ => ⟨b, fun _ => Nat.sub_le _ _, rfl⟩

theorem fails_throw (e : ε) (c : ρ → ℕ) : Fails (throw e : Metered ρ ε α) c := fun b _ => ⟨e, b, rfl⟩

theorem spends_charge [DecidableEq ρ] (limit : ρ → ε) (r : ρ) (n : ℕ) :
    Spends (charge limit r n) (only r n) (.ok ()) := by
  intro b hb
  have hr : n ≤ b r := by simpa [only] using hb r
  refine ⟨fun r' => if r' = r then b r' - n else b r', fun r' => ?_, ?_⟩
  · by_cases h : r' = r
    · simp [only, h]
    · simp [only, h]
  · show (if n ≤ b r then _ else _) = _
    rw [if_pos hr]
    rfl

theorem spends_available [DecidableEq ρ] (limit : ρ → ε) (r : ρ) (n : ℕ) :
    Spends (available limit r n) (only r n) (.ok ()) := by
  intro b hb
  have hr : n ≤ b r := by simpa [only] using hb r
  refine ⟨b, fun _ => Nat.sub_le _ _, ?_⟩
  show (if n ≤ b r then _ else _) = _
  rw [if_pos hr]
  rfl

theorem Spends.mono {out : Except ε α} (h : Spends x c out) (hc : ∀ r, c r ≤ c' r) : Spends x c' out := by
  intro b hb
  obtain ⟨b', hb', hx⟩ := h b fun r => Nat.le_trans (hc r) (hb r)
  refine ⟨b', fun r => ?_, hx⟩
  have := hb' r
  have := hc r
  omega

theorem Spends.bind {out : Except ε β} (hx : Spends x c (.ok a)) (hf : Spends (f a) c' out) :
    Spends (x >>= f) (both c c') out := by
  intro b hb
  have hle (r : ρ) : c r + c' r ≤ b r := hb r
  obtain ⟨b₁, hb₁, hrun⟩ := hx b fun r => Nat.le_trans (Nat.le_add_right _ _) (hle r)
  obtain ⟨b₂, hb₂, hrun'⟩ := hf b₁ fun r => by
    have := hb₁ r
    have := hle r
    omega
  refine ⟨b₂, fun r => ?_, ?_⟩
  · show b r - (c r + c' r) ≤ b₂ r
    have := hb₁ r
    have := hb₂ r
    omega
  · show EStateM.bind x f b = _
    rw [EStateM.bind, hrun]
    exact hrun'

theorem Spends.bind_error (hx : Spends x c (.error e)) : Spends (x >>= f) c (.error e) := by
  intro b hb
  obtain ⟨b', hb', hrun⟩ := hx b hb
  exact ⟨b', hb', bind_run_error hrun⟩

theorem Spends.bind_fails (hx : Spends x c (.ok a)) (hf : Fails (f a) c') : Fails (x >>= f) (both c c') := by
  intro b hb
  have hle (r : ρ) : c r + c' r ≤ b r := hb r
  obtain ⟨b₁, hb₁, hrun⟩ := hx b fun r => Nat.le_trans (Nat.le_add_right _ _) (hle r)
  obtain ⟨e, b₂, hrun'⟩ := hf b₁ fun r => by
    have := hb₁ r
    have := hle r
    omega
  refine ⟨e, b₂, ?_⟩
  show EStateM.bind x f b = _
  rw [EStateM.bind, hrun]
  exact hrun'

theorem Fails.bind (hx : Fails x c) : Fails (x >>= f) (both c c') := by
  intro b hb
  obtain ⟨e, b', hrun⟩ := hx b fun r => Nat.le_trans (Nat.le_add_right _ _) (hb r)
  exact ⟨e, b', bind_run_error hrun⟩

theorem Spends.after_available {limit : ρ → ε} {r : ρ} {n : ℕ} {out : Except ε α} (hx : Spends x c out) (hn : n ≤ c r) :
    Spends (available limit r n >>= fun _ => x) c out := by
  intro b hb
  obtain ⟨b', hb', hrun⟩ := hx b hb
  refine ⟨b', hb', ?_⟩
  show EStateM.bind (available limit r n) (fun _ => x) b = _
  have havailable : available limit r n b = .ok () b := if_pos (Nat.le_trans hn (hb r))
  rw [EStateM.bind, havailable]
  exact hrun

theorem Spends.attempt {out : Except ε α} (hx : Spends x c out) : Spends (attempt x) c (.ok out) := by
  intro b hb
  obtain ⟨b', hb', hrun⟩ := hx b hb
  refine ⟨b', hb', ?_⟩
  unfold Lib.attempt
  rw [hrun]
  cases out with
  | ok a => rfl
  | error e => rfl

end rules

/-! ## Under a condition -/

/-- The program ends with `out` when the condition holds and fails otherwise. -/
structure SpendsWhen (P : Prop) (x : Metered ρ ε α) (c : ρ → ℕ) (out : α) : Prop where
  spends : P → Spends x c (.ok out)
  fails : ¬P → Fails x c

section condition

variable {P Q : Prop} {x : Metered ρ ε α} {f : α → Metered ρ ε β} {c c' : ρ → ℕ} {a : α} {b : β}

theorem Spends.when (h : Spends x c (.ok a)) : SpendsWhen True x c a := ⟨fun _ => h, fun h => absurd trivial h⟩

theorem spendsWhen_throw (e : ε) (c : ρ → ℕ) (a : α) : SpendsWhen False (throw e : Metered ρ ε α) c a :=
  ⟨False.elim, fun _ => fails_throw e c⟩

theorem SpendsWhen.bind (hx : SpendsWhen P x c a) (hf : SpendsWhen Q (f a) c' b) :
    SpendsWhen (P ∧ Q) (x >>= f) (both c c') b := by
  refine ⟨fun h => (hx.spends h.1).bind (hf.spends h.2), fun h => ?_⟩
  by_cases hP : P
  · exact (hx.spends hP).bind_fails (hf.fails fun hQ => h ⟨hP, hQ⟩)
  · exact (hx.fails hP).bind

theorem Spends.bind_when (hx : Spends x c (.ok a)) (hf : SpendsWhen Q (f a) c' b) :
    SpendsWhen Q (x >>= f) (both c c') b :=
  ⟨fun h => hx.bind (hf.spends h), fun h => hx.bind_fails (hf.fails h)⟩

theorem SpendsWhen.bind_spends (hx : SpendsWhen P x c a) (hf : Spends (f a) c' (.ok b)) :
    SpendsWhen P (x >>= f) (both c c') b :=
  ⟨fun h => (hx.spends h).bind hf, fun h => (hx.fails h).bind⟩

end condition

/-! ## Over a list -/

/-- Runs a program on each item and joins the results. -/
def collect (f : α → Metered ρ ε (List β)) : List α → Metered ρ ε (List β)
  | [] => pure []
  | x :: xs => do
    let ys ← f x
    let zs ← collect f xs
    return ys ++ zs

section collect

variable {f : α → Metered ρ ε (List β)} {c : α → ρ → ℕ} {out : α → List β} {xs : List α}

theorem total_cons (c : α → ρ → ℕ) (x : α) (xs : List α) : total c (x :: xs) = both (c x) (total c xs) := by
  funext r
  simp [total, both]

theorem both_free (c : ρ → ℕ) : both c free = c := rfl

theorem spends_collect (h : ∀ x ∈ xs, Spends (f x) (c x) (.ok (out x))) :
    Spends (collect f xs) (total c xs) (.ok (xs.flatMap out)) := by
  induction xs with
  | nil => exact spends_pure []
  | cons x xs ih =>
    rw [total_cons, List.flatMap_cons, ← both_free (total c xs)]
    refine (h x List.mem_cons_self).bind ?_
    exact (ih fun y hy => h y (List.mem_cons_of_mem _ hy)).bind (spends_pure _)

theorem spendsWhen_collect {P : α → Prop} (h : ∀ x ∈ xs, SpendsWhen (P x) (f x) (c x) (out x)) :
    SpendsWhen (∀ x ∈ xs, P x) (collect f xs) (total c xs) (xs.flatMap out) := by
  refine ⟨fun hP => spends_collect fun x hx => (h x hx).spends (hP x hx), ?_⟩
  induction xs with
  | nil => exact fun hnone => absurd (by simp) hnone
  | cons x xs ih =>
    intro hnot
    rw [total_cons]
    by_cases hP : P x
    · have hrest : ¬∀ y ∈ xs, P y := fun hall => hnot (by simpa [hP] using hall)
      rw [← both_free (total c xs)]
      refine ((h x List.mem_cons_self).spends hP).bind_fails ?_
      exact (ih (fun y hy => h y (List.mem_cons_of_mem _ hy)) hrest).bind
    · exact ((h x List.mem_cons_self).fails hP).bind

end collect

end Metered

end Emucap.Lib
