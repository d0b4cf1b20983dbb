import Emucap.Lib.Stateful

/-!
# Programs that leave a trace

A program over a state and a trace reads the state and never the trace: `Emits x P` holds if `P` holds of every way
`x` can end and of the events it has added by then. `untilSome` runs programs up to the first one that returns a
value.
-/

namespace Emucap.Lib

structure Traced (σ ν : Type) where
  state : σ
  trace : List ν

variable {ε σ ν α β : Type}

/-! ## Operations -/

def note (a : ν) : EStateM ε (Traced σ ν) Unit := modify fun w => { w with trace := w.trace ++ [a] }

def onState (f : σ → α × σ) : EStateM ε (Traced σ ν) α := fun w => .ok (f w.state).1 { w with state := (f w.state).2 }

def traceOf (x : EStateM ε (Traced σ ν) α) (s : σ) : List ν := (after x ⟨s, []⟩).trace

def outcomeOf (x : EStateM ε (Traced σ ν) α) (s : σ) : Except ε α :=
  match x ⟨s, []⟩ with
  | .ok a _ => .ok a
  | .error e _ => .error e

/-! ## What a program emits -/

def Emits (x : EStateM ε (Traced σ ν) α) (P : Except ε α → List ν → Prop) : Prop :=
  ∀ w, wp x (fun a t => ∃ new, t.trace = w.trace ++ new ∧ P (.ok a) new)
    (fun e t => ∃ new, t.trace = w.trace ++ new ∧ P (.error e) new) w

section emits
variable {x : EStateM ε (Traced σ ν) α} {P Q : Except ε α → List ν → Prop}

theorem Emits.traceOf (h : Emits x P) (s : σ) : P (outcomeOf x s) (traceOf x s) := by
  have hw := h ⟨s, []⟩
  unfold Lib.traceOf outcomeOf after
  unfold wp at hw
  cases hrun : x ⟨s, []⟩ with
  | ok a t =>
    rw [hrun] at hw
    obtain ⟨new, htrace, hP⟩ := hw
    simp only [htrace, List.nil_append]
    exact hP
  | error e t =>
    rw [hrun] at hw
    obtain ⟨new, htrace, hP⟩ := hw
    simp only [htrace, List.nil_append]
    exact hP

theorem Emits.mono (h : Emits x P) (hPQ : ∀ r new, P r new → Q r new) : Emits x Q := by
  intro w
  refine wp_mono (h w) ?_ ?_
  · rintro a t ⟨new, htrace, hP⟩
    exact ⟨new, htrace, hPQ _ _ hP⟩
  · rintro e t ⟨new, htrace, hP⟩
    exact ⟨new, htrace, hPQ _ _ hP⟩

theorem emits_pure {a : α} (h : P (.ok a) []) : Emits (pure a : EStateM ε (Traced σ ν) α) P :=
  fun _ => ⟨[], (List.append_nil _).symm, h⟩

theorem emits_throw {e : ε} (h : P (.error e) []) : Emits (throw e : EStateM ε (Traced σ ν) α) P :=
  fun _ => ⟨[], (List.append_nil _).symm, h⟩

theorem emits_note {a : ν} {P : Except ε Unit → List ν → Prop} (h : P (.ok ()) [a]) :
    Emits (note a : EStateM ε (Traced σ ν) Unit) P :=
  fun _ => ⟨[a], rfl, h⟩

theorem emits_fromExcept {r : Except ε α} (h : P r []) : Emits (fromExcept r : EStateM ε (Traced σ ν) α) P := by
  cases r with
  | ok a => exact emits_pure h
  | error e => exact emits_throw h

theorem Emits.bind {f : α → EStateM ε (Traced σ ν) β} {Q : α → Except ε β → List ν → Prop}
    {R : Except ε β → List ν → Prop} (hx : Emits x P) (hf : ∀ a, Emits (f a) (Q a))
    (hok : ∀ a before r new, P (.ok a) before → Q a r new → R r (before ++ new))
    (herror : ∀ e before, P (.error e) before → R (.error e) before) : Emits (x >>= f) R := by
  intro w
  rw [wp_bind]
  refine wp_mono (hx w) ?_ ?_
  · rintro a t ⟨before, hbefore, hP⟩
    refine wp_mono (hf a t) ?_ ?_
    · rintro b u ⟨new, hnew, hQ⟩
      exact ⟨before ++ new, by rw [hnew, hbefore, List.append_assoc], hok _ _ _ _ hP hQ⟩
    · rintro e u ⟨new, hnew, hQ⟩
      exact ⟨before ++ new, by rw [hnew, hbefore, List.append_assoc], hok _ _ _ _ hP hQ⟩
  · rintro e t ⟨before, hbefore, hP⟩
    exact ⟨before, hbefore, herror _ _ hP⟩

theorem emits_onState_bind {f : σ → α × σ} {g : α → EStateM ε (Traced σ ν) β} {R : Except ε β → List ν → Prop}
    (h : ∀ s, Emits (g (f s).1) R) : Emits (onState f >>= g) R := by
  intro w
  rw [wp_bind]
  exact h w.state { w with state := (f w.state).2 }

theorem emits_note_bind {a : ν} {g : Unit → EStateM ε (Traced σ ν) β} {P R : Except ε β → List ν → Prop}
    (hg : Emits (g ()) P) (h : ∀ r new, P r new → R r (a :: new)) : Emits (note a >>= g) R :=
  (emits_note (P := fun r new => r = .ok () ∧ new = [a]) ⟨rfl, rfl⟩).bind (Q := fun _ => P) (fun _ => hg)
    (by rintro _ _ r new ⟨-, rfl⟩ hP; exact h r new hP) (by rintro e before ⟨h, -⟩; cases h)

theorem Emits.map {f : α → β} {Q : Except ε β → List ν → Prop} (h : Emits x P)
    (hPQ : ∀ r new, P r new → Q (f <$> r) new) : Emits (f <$> x) Q := by
  intro w
  rw [wp_map]
  refine wp_mono (h w) ?_ ?_
  · rintro a t ⟨new, htrace, hP⟩
    exact ⟨new, htrace, hPQ _ _ hP⟩
  · rintro e t ⟨new, htrace, hP⟩
    exact ⟨new, htrace, hPQ _ _ hP⟩

theorem Emits.attempt {Q : Except ε (Except ε α) → List ν → Prop} (h : Emits x P)
    (hPQ : ∀ r new, P r new → Q (.ok r) new) : Emits (attempt x) Q := by
  intro w
  rw [wp_attempt]
  refine wp_mono (h w) ?_ ?_
  · rintro a t ⟨new, htrace, hP⟩
    exact ⟨new, htrace, hPQ _ _ hP⟩
  · rintro e t ⟨new, htrace, hP⟩
    exact ⟨new, htrace, hPQ _ _ hP⟩

theorem Emits.mapError {ε' : Type} {f : ε → ε'} {Q : Except ε' α → List ν → Prop} (h : Emits x P)
    (hPQ : ∀ r new, P r new → Q (r.mapError f) new) : Emits (mapError f x) Q := by
  intro w
  have hw := h w
  unfold wp at hw
  unfold wp Lib.mapError
  cases hrun : x w with
  | ok a t =>
    rw [hrun] at hw
    obtain ⟨new, htrace, hP⟩ := hw
    exact ⟨new, htrace, hPQ (.ok a) new hP⟩
  | error e t =>
    rw [hrun] at hw
    obtain ⟨new, htrace, hP⟩ := hw
    exact ⟨new, htrace, hPQ (.error e) new hP⟩

end emits

/-! ## One program after another, up to the first value -/

/-- Go on with `y` if `x` returns nothing. -/
def orGoOn {σ : Type} (x y : EStateM ε σ (Option α)) : EStateM ε σ (Option α) := do
  match ← x with
  | some a => pure (some a)
  | none => y

def untilSome {σ : Type} : List (EStateM ε σ (Option α)) → EStateM ε σ (Option α)
  | [] => pure none
  | x :: rest => orGoOn x (untilSome rest)

theorem orGoOn_assoc {σ : Type} (x y z : EStateM ε σ (Option α)) :
    orGoOn (orGoOn x y) z = orGoOn x (orGoOn y z) := by
  simp only [orGoOn, bind_assoc]
  congr 1
  funext r
  cases r with
  | none => rfl
  | some a => rfl

theorem none_orGoOn {σ : Type} (y : EStateM ε σ (Option α)) : orGoOn (pure none) y = y := rfl

theorem untilSome_append {σ : Type} (xs ys : List (EStateM ε σ (Option α))) :
    untilSome (xs ++ ys) = orGoOn (untilSome xs) (untilSome ys) := by
  induction xs with
  | nil => exact (none_orGoOn _).symm
  | cons x xs ih => rw [List.cons_append, untilSome, untilSome, ih, orGoOn_assoc]

section stops
variable {ι : Type} {P : ι → Except ε (Option α) → List ν → Prop}

/-- How a run over a list can end, and the events it leaves, where `P` says so of each item. -/
inductive Stops (P : ι → Except ε (Option α) → List ν → Prop) : List ι → Except ε (Option α) → List ν → Prop where
  | done : Stops P [] (.ok none) []
  | next {i rest before r new} : P i (.ok none) before → Stops P rest r new → Stops P (i :: rest) r (before ++ new)
  | stop {i rest r new} : P i r new → r ≠ .ok none → Stops P (i :: rest) r new

theorem Emits.orGoOn {x y : EStateM ε (Traced σ ν) (Option α)} {P Q R : Except ε (Option α) → List ν → Prop}
    (hx : Emits x P) (hy : Emits y Q) (hnext : ∀ before r new, P (.ok none) before → Q r new → R r (before ++ new))
    (hstop : ∀ r new, P r new → r ≠ .ok none → R r new) : Emits (orGoOn x y) R := by
  refine hx.bind (Q := fun a r new => match a with
    | some a => r = .ok (some a) ∧ new = []
    | none => Q r new) ?_ ?_ ?_
  · intro a
    cases a with
    | none => exact hy
    | some a => exact emits_pure ⟨rfl, rfl⟩
  · intro a before r new hP hQ
    cases a with
    | none => exact hnext before r new hP hQ
    | some a =>
      obtain ⟨rfl, rfl⟩ := hQ
      rw [List.append_nil]
      exact hstop _ _ hP (by simp)
  · intro e before hP
    exact hstop _ _ hP (by simp)

theorem Emits.untilSome {f : ι → EStateM ε (Traced σ ν) (Option α)} (h : ∀ i, Emits (f i) (P i)) (l : List ι) :
    Emits (untilSome (l.map f)) (Stops P l) := by
  induction l with
  | nil => exact emits_pure .done
  | cons i l ih =>
    rw [List.map_cons, Lib.untilSome]
    exact (h i).orGoOn ih (fun _ _ _ => .next) (fun _ _ => .stop)

end stops

end Emucap.Lib
