import Emucap.Lib.Traced

/-!
# Programs with scripted surroundings

What the surroundings of a program answer is a script, one answer for each time that the program asks. A run that comes
to the end of its script, or to an answer to another question, is cut off there. As the script is arbitrary, what holds
of every run holds whatever the surroundings do, and of the beginnings of every run.
-/

namespace Emucap.Lib

/-- Why a run has no value. -/
inductive Halt (ε : Type) where
  | failed (error : ε)
  /-- the script does not go on -/
  | cut
  /-- a loop was not given enough rounds -/
  | unfinished
  deriving DecidableEq

/-- The answers that are left, and what the program itself remembers. -/
structure Scene (η σ : Type) where
  answers : List η
  memory : σ

variable {ε η σ δ α β : Type}

abbrev Scripted (ε η σ δ : Type) := EStateM (Halt ε) (Traced (Scene η σ) δ)

def ask (read : η → Option α) : Scripted ε η σ δ α := fun w =>
  match w.state.answers with
  | [] => .error .cut w
  | h :: rest =>
    match read h with
    | some a => .ok a { w with state := { w.state with answers := rest } }
    | none => .error .cut w

def refuse (error : ε) : Scripted ε η σ δ α := throw (.failed error)

def memoryNow : Scripted ε η σ δ σ := do return (← get).state.memory

def remember (f : σ → σ) : Scripted ε η σ δ Unit :=
  modify fun w => { w with state := { w.state with memory := f w.state.memory } }

/-- The value of a program, or what it failed with. A run that is cut off stays so. -/
def outcome (x : Scripted ε η σ δ α) : Scripted ε η σ δ (Except ε α) := fun w =>
  match x w with
  | .ok a u => .ok (.ok a) u
  | .error (.failed e) u => .ok (.error e) u
  | .error .cut u => .error .cut u
  | .error .unfinished u => .error .unfinished u

def orRefuse : Except ε α → Scripted ε η σ δ α
  | .ok a => pure a
  | .error e => refuse e

def onFailure (f : σ → σ) (x : Scripted ε η σ δ α) : Scripted ε η σ δ α := do
  match ← outcome x with
  | .ok a => pure a
  | .error e =>
    remember f
    refuse e

section rules
variable {Q : α → Traced (Scene η σ) δ → Prop} {E : Halt ε → Traced (Scene η σ) δ → Prop} {w : Traced (Scene η σ) δ}

theorem wp_ask_memory {read : η → Option α}
    (hok : ∀ a u, u.trace = w.trace → u.state.memory = w.state.memory → Q a u)
    (hcut : ∀ u, u.trace = w.trace → u.state.memory = w.state.memory → E .cut u) :
    wp (ask read : Scripted ε η σ δ α) Q E w := by
  unfold wp ask
  cases w.state.answers with
  | nil => exact hcut w rfl rfl
  | cons h rest =>
    dsimp only
    cases read h with
    | none => exact hcut w rfl rfl
    | some a => exact hok a _ rfl rfl

theorem wp_ask {read : η → Option α} (hok : ∀ a u, u.trace = w.trace → Q a u)
    (hcut : ∀ u, u.trace = w.trace → E .cut u) : wp (ask read : Scripted ε η σ δ α) Q E w :=
  wp_ask_memory (fun a u hu _ => hok a u hu) (fun u hu _ => hcut u hu)

theorem wp_note {d : δ} {Q : Unit → Traced (Scene η σ) δ → Prop} (h : Q () { w with trace := w.trace ++ [d] }) :
    wp (note d : Scripted ε η σ δ Unit) Q E w := h

theorem wp_refuse {error : ε} (h : E (.failed error) w) : wp (refuse error : Scripted ε η σ δ α) Q E w := h

theorem wp_memoryNow {Q : σ → Traced (Scene η σ) δ → Prop} (h : Q w.state.memory w) :
    wp (memoryNow : Scripted ε η σ δ σ) Q E w := h

theorem wp_remember {f : σ → σ} {Q : Unit → Traced (Scene η σ) δ → Prop}
    (h : Q () { w with state := { w.state with memory := f w.state.memory } }) :
    wp (remember f : Scripted ε η σ δ Unit) Q E w := h

theorem wp_outcome {x : Scripted ε η σ δ α} {Q : Except ε α → Traced (Scene η σ) δ → Prop}
    (h : wp x (fun a => Q (.ok a))
      (fun e u => (∀ error, e = .failed error → Q (.error error) u) ∧ ((∀ error, e ≠ .failed error) → E e u)) w) :
    wp (outcome x) Q E w := by
  unfold wp outcome at *
  cases hrun : x w with
  | ok a u =>
    rw [hrun] at h
    exact h
  | error e u =>
    rw [hrun] at h
    cases e with
    | failed error => exact h.1 error rfl
    | cut => exact h.2 nofun
    | unfinished => exact h.2 nofun

theorem wp_orRefuse {r : Except ε α} (hok : ∀ a, r = .ok a → Q a w) (herror : ∀ e, r = .error e → E (.failed e) w) :
    wp (orRefuse r : Scripted ε η σ δ α) Q E w := by
  cases r with
  | ok a => exact hok a rfl
  | error e => exact herror e rfl

end rules

end Emucap.Lib
