import Emucap.Lib.Stateful
import Mathlib.Data.Nat.Notation

/-!
# Loops that go on until a value

`untilValue stuck body n` runs the body until it returns a value, for at most `n` rounds. What every round keeps holds
at the end of the loop (`wp_untilValue`).
-/

namespace Emucap.Lib

variable {ε σ α : Type}

def untilValue (stuck : ε) (body : EStateM ε σ (Option α)) : ℕ → EStateM ε σ α
  | 0 => throw stuck
  | n + 1 => do
    match ← body with
    | some a => pure a
    | none => untilValue stuck body n

section rules
variable {stuck : ε} {body : EStateM ε σ (Option α)} {Q : α → σ → Prop} {E : ε → σ → Prop} {I : σ → Prop}

theorem wp_untilValue (hbody : ∀ s, I s → wp body (fun a t => (∀ v, a = some v → Q v t) ∧ (a = none → I t)) E s)
    (hstuck : ∀ s, I s → E stuck s) (n : ℕ) {s : σ} (hs : I s) : wp (untilValue stuck body n) Q E s := by
  induction n generalizing s with
  | zero => exact hstuck s hs
  | succ n ih =>
    rw [untilValue, wp_bind]
    refine wp_mono (hbody s hs) ?_ (fun _ _ h => h)
    rintro a t ⟨hvalue, hnone⟩
    cases a with
    | some v => exact hvalue v rfl
    | none => exact ih (hnone rfl)

end rules

end Emucap.Lib
