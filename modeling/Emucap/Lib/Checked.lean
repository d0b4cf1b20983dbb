import Mathlib.Data.Nat.Notation
import Mathlib.Data.Option.Basic
import Mathlib.Tactic.SplitIfs
import Mathlib.Algebra.Group.Nat.Defs

/-!
# Checked computations

A check that returns early is a `require` in a sequence of `Except` steps, and `ok_or` is `orError`; the
lemmas here read a successful sequence back as the conjunction of what was checked. Numbers are unsigned 64-bit
integers, whose checked addition is `checkedAdd`.
-/

namespace Emucap.Lib

variable {ε α β : Type}

/-- Go on only where `c` holds. -/
def require (c : Prop) [Decidable c] (e : ε) : Except ε Unit := if c then .ok () else .error e

def orError (e : ε) : Option α → Except ε α
  | some a => .ok a
  | none => .error e

theorem ok_bind (a : α) (f : α → Except ε β) : (Except.ok a >>= f) = f a := rfl

theorem bind_eq_ok {x : Except ε α} {f : α → Except ε β} {b : β} :
    (x >>= f) = .ok b ↔ ∃ a, x = .ok a ∧ f a = .ok b := by
  constructor
  · intro h
    rcases x with e | a
    · cases h
    · exact ⟨a, rfl, h⟩
  · rintro ⟨a, rfl, h⟩
    exact h

@[simp] theorem require_eq_ok {c : Prop} [Decidable c] {e : ε} {u : Unit} : require c e = .ok u ↔ c := by
  unfold require
  split_ifs with h
  · simp [h]
  · simp [h]

theorem require_bind_eq_ok {c : Prop} [Decidable c] {e : ε} {f : Unit → Except ε β} {b : β} :
    (require c e >>= f) = .ok b ↔ c ∧ f () = .ok b := by
  rw [bind_eq_ok]
  constructor
  · rintro ⟨u, hc, hf⟩
    exact ⟨(require_eq_ok).mp hc, hf⟩
  · rintro ⟨hc, hf⟩
    exact ⟨(), (require_eq_ok).mpr hc, hf⟩

@[simp] theorem orError_eq_ok {e : ε} {o : Option α} {a : α} : orError e o = .ok a ↔ o = some a := by
  cases o with
  | none => simp [orError]
  | some a' => simp [orError]

theorem orError_bind_eq_ok {e : ε} {o : Option α} {f : α → Except ε β} {b : β} :
    (orError e o >>= f) = .ok b ↔ ∃ a, o = some a ∧ f a = .ok b := by
  simp only [bind_eq_ok, orError_eq_ok]

theorem mapM_map_eq_ok {γ : Type} {f : β → Except ε γ} {g : α → β} {r : α → γ} {l : List α}
    (h : ∀ a ∈ l, f (g a) = .ok (r a)) : (l.map g).mapM f = .ok (l.map r) := by
  induction l with
  | nil => rfl
  | cons a l ih =>
    rw [List.map_cons, List.mapM_cons, h a List.mem_cons_self, ok_bind,
      ih fun a' ha' => h a' (List.mem_cons_of_mem a ha')]
    rfl

theorem mapM_of_getElem? {f : α → Except ε β} {l : List α} :
    ∀ {P : ℕ → β → Prop}, (∀ i a, l[i]? = some a → ∃ b, f a = .ok b ∧ P i b) →
      ∃ bs, l.mapM f = .ok bs ∧ bs.length = l.length ∧ ∀ i b, bs[i]? = some b → P i b := by
  induction l with
  | nil =>
    intro P _
    exact ⟨[], rfl, rfl, nofun⟩
  | cons a l ih =>
    intro P h
    obtain ⟨b, hb, hfirst⟩ := h 0 a rfl
    obtain ⟨bs, hbs, hlength, hrest⟩ := @ih (fun i => P (i + 1)) fun i a' ha' => h (i + 1) a' ha'
    refine ⟨b :: bs, ?_, by rw [List.length_cons, List.length_cons, hlength], ?_⟩
    · rw [List.mapM_cons, hb, ok_bind, hbs]
      rfl
    · intro i b' hb'
      cases i with
      | zero =>
        cases hb'
        exact hfirst
      | succ i => exact hrest i b' hb'

/-! ## The errors -/

/-- Where `x` fails, its error is one of `P`. -/
def ErrorsIn (P : ε → Prop) (x : Except ε α) : Prop := ∀ e, x = .error e → P e

section errors
variable {P : ε → Prop}

theorem errorsIn_ok (a : α) : ErrorsIn P (Except.ok a) := by
  intro e h
  cases h

theorem ErrorsIn.bind {x : Except ε α} {f : α → Except ε β} (hx : ErrorsIn P x)
    (hf : ∀ a, x = .ok a → ErrorsIn P (f a)) : ErrorsIn P (x >>= f) := by
  intro e h
  match x with
  | .error e' =>
    obtain rfl : e' = e := Except.error.inj h
    exact hx e' rfl
  | .ok a => exact hf a rfl e h

theorem errorsIn_require {c : Prop} [Decidable c] {e : ε} (h : ¬ c → P e) : ErrorsIn P (require c e) := by
  intro e' h'
  unfold require at h'
  split_ifs at h' with hc
  obtain rfl := Except.error.inj h'
  exact h hc

theorem errorsIn_orError {e : ε} {o : Option α} (h : o = none → P e) : ErrorsIn P (orError e o) := by
  intro e' h'
  cases o with
  | some a => cases h'
  | none =>
    obtain rfl := Except.error.inj h'
    exact h rfl

theorem errorsIn_require_bind {c : Prop} [Decidable c] {e : ε} {f : Unit → Except ε β} (h : ¬ c → P e)
    (hf : c → ErrorsIn P (f ())) : ErrorsIn P (require c e >>= f) :=
  (errorsIn_require h).bind fun _ hc => hf ((require_eq_ok).mp hc)

theorem errorsIn_orError_bind {e : ε} {o : Option α} {f : α → Except ε β} (h : o = none → P e)
    (hf : ∀ a, o = some a → ErrorsIn P (f a)) : ErrorsIn P (orError e o >>= f) :=
  (errorsIn_orError h).bind fun a ha => hf a ((orError_eq_ok).mp ha)

end errors

/-! ## Numbers -/

def checkedAdd (a b : ℕ) : Option ℕ := if a + b < 2 ^ 64 then some (a + b) else none

theorem checkedAdd_eq_some {a b c : ℕ} : checkedAdd a b = some c ↔ a + b < 2 ^ 64 ∧ c = a + b := by
  unfold checkedAdd
  split_ifs with h
  · rw [Option.some.injEq, eq_comm]
    exact ⟨fun hc => ⟨h, hc⟩, fun hc => hc.2⟩
  · exact ⟨nofun, fun hc => absurd hc.1 h⟩

theorem checkedAdd_eq_none {a b : ℕ} : checkedAdd a b = none ↔ 2 ^ 64 ≤ a + b := by
  unfold checkedAdd
  split_ifs with h
  · exact ⟨nofun, fun hle => absurd h (Nat.not_lt.mpr hle)⟩
  · exact ⟨fun _ => Nat.le_of_not_lt h, fun _ => rfl⟩

/-- `a - b`, which must not be negative. -/
def checkedSub (a b : ℕ) : Option ℕ := if b ≤ a then some (a - b) else none

theorem checkedSub_eq_some {a b c : ℕ} : checkedSub a b = some c ↔ b ≤ a ∧ c = a - b := by
  rw [checkedSub, Option.ite_none_right_eq_some, Option.some.injEq, @eq_comm _ c]

def checkedMul (a b : ℕ) : Option ℕ := if a * b < 2 ^ 64 then some (a * b) else none

theorem checkedMul_eq_some {a b c : ℕ} : checkedMul a b = some c ↔ a * b < 2 ^ 64 ∧ c = a * b := by
  rw [checkedMul, Option.ite_none_right_eq_some, Option.some.injEq, @eq_comm _ c]

end Emucap.Lib
