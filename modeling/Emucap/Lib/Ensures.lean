import Emucap.Lib.Checked

/-!
# What a checked computation ensures

`Ensures E P x`: the computation gives a value with `P`, or an error of `E`. The rules follow the steps of the
computation, so that what an earlier check found out is at hand for the later ones.
-/

namespace Emucap.Lib

variable {ε α β : Type} {E : ε → Prop} {P Q : α → Prop}

def Ensures (E : ε → Prop) (P : α → Prop) : Except ε α → Prop
  | .ok a => P a
  | .error e => E e

theorem Ensures.bind {R : β → Prop} {x : Except ε α} {f : α → Except ε β} (hx : Ensures E P x)
    (hf : ∀ a, P a → Ensures E R (f a)) : Ensures E R (x >>= f) := by
  cases x with
  | ok a => exact hf a hx
  | error e => exact hx

theorem Ensures.mono {x : Except ε α} (hx : Ensures E P x) (h : ∀ a, P a → Q a) : Ensures E Q x := by
  cases x with
  | ok a => exact h a hx
  | error e => exact hx

theorem Ensures.and {F : ε → Prop} {x : Except ε α} (hP : Ensures E P x) (hQ : Ensures F Q x) :
    Ensures E (fun a => P a ∧ Q a) x := by
  cases x with
  | ok a => exact ⟨hP, hQ⟩
  | error e => exact hP

theorem Ensures.ok {x : Except ε α} {a : α} (hx : Ensures E P x) (h : x = .ok a) : P a := by
  rw [h] at hx
  exact hx

theorem Ensures.error {x : Except ε α} {e : ε} (hx : Ensures E P x) (h : x = .error e) : E e := by
  rw [h] at hx
  exact hx

theorem Ensures.self {x : Except ε α} (hx : Ensures E P x) : Ensures E (fun a => P a ∧ x = .ok a) x := by
  cases x with
  | ok a => exact ⟨hx, rfl⟩
  | error e => exact hx

theorem ensures_require {c : Prop} [Decidable c] {e : ε} (he : ¬ c → E e) :
    Ensures E (fun _ => c) (require c e) := by
  by_cases hc : c
  · rw [require, if_pos hc]
    exact hc
  · rw [require, if_neg hc]
    exact he hc

theorem ensures_require_bind {c : Prop} [Decidable c] {e : ε} {f : Unit → Except ε α} (he : ¬ c → E e)
    (hf : c → Ensures E P (f ())) : Ensures E P (require c e >>= f) :=
  (ensures_require he).bind fun _ hc => hf hc

theorem ensures_orError {e : ε} {o : Option α} (he : o = none → E e) :
    Ensures E (fun a => o = some a) (orError e o) := by
  cases o with
  | none => exact he rfl
  | some a => exact rfl

theorem ensures_orError_bind {e : ε} {o : Option β} {f : β → Except ε α} (he : o = none → E e)
    (hf : ∀ b, o = some b → Ensures E P (f b)) : Ensures E P (orError e o >>= f) :=
  (ensures_orError he).bind hf

end Emucap.Lib
