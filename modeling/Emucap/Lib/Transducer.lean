import Mathlib.Data.List.Basic

/-!
# Machines that answer

A machine takes an input and returns an answer with the state it leaves. Two machines give the same
answers to every sequence of inputs once a relation between their states is kept by every input and
forces equal answers (`Simulation.outputs_eq`).
-/

namespace Emucap.Lib

variable {σ τ ι ω : Type*}

def outputs (step : σ → ι → ω × σ) : σ → List ι → List ω
  | _, [] => []
  | s, i :: inputs => (step s i).1 :: outputs step (step s i).2 inputs

/-- Related states answer every allowed input alike and stay related. -/
structure Simulation (step : σ → ι → ω × σ) (step' : τ → ι → ω × τ) (Allowed : ι → Prop)
    (Related : σ → τ → Prop) : Prop where
  answer : ∀ s t i, Related s t → Allowed i → (step s i).1 = (step' t i).1
  next : ∀ s t i, Related s t → Allowed i → Related (step s i).2 (step' t i).2

theorem Simulation.outputs_eq {step : σ → ι → ω × σ} {step' : τ → ι → ω × τ} {Allowed : ι → Prop}
    {Related : σ → τ → Prop} (h : Simulation step step' Allowed Related) (inputs : List ι) :
    ∀ s t, Related s t → (∀ i ∈ inputs, Allowed i) → outputs step s inputs = outputs step' t inputs := by
  induction inputs with
  | nil =>
    intro s t _ _
    rfl
  | cons i inputs ih =>
    intro s t hst hall
    have hi : Allowed i := hall i List.mem_cons_self
    have hrest : ∀ j ∈ inputs, Allowed j := fun j hj => hall j (List.mem_cons_of_mem i hj)
    simp only [outputs]
    rw [h.answer s t i hst hi, ih _ _ (h.next s t i hst hi) hrest]

end Emucap.Lib
