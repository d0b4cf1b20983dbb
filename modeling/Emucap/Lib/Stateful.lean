import Mathlib.Logic.Basic

/-!
# Programs with a state and errors

A program of `EStateM` that fails keeps the state it has reached. A successful run of two programs in a row is
a successful run of each. `Leaves K P x Q` says of a program that is begun where `P` holds that it ends where `Q`
holds, or fails where `K` holds; a program that only reads leaves every property as it is.
-/

namespace Emucap.Lib

variable {ε σ α β : Type}

theorem bind_run_eq_ok {x : EStateM ε σ α} {f : α → EStateM ε σ β} {b : β} {s s' : σ} :
    (x >>= f) s = .ok b s' ↔ ∃ a t, x s = .ok a t ∧ f a t = .ok b s' := by
  show EStateM.bind x f s = .ok b s' ↔ _
  rw [EStateM.bind]
  cases x s with
  | ok a t => simp [and_assoc]
  | error e t => simp

theorem bind_run_of_ok {x : EStateM ε σ α} {f : α → EStateM ε σ β} {a : α} {s t : σ} (h : x s = .ok a t) :
    (x >>= f) s = f a t := by
  show EStateM.bind x f s = f a t
  rw [EStateM.bind, h]

theorem bind_run_error {x : EStateM ε σ α} {f : α → EStateM ε σ β} {e : ε} {s s' : σ} (h : x s = .error e s') :
    (x >>= f) s = .error e s' := by
  show EStateM.bind x f s = .error e s'
  rw [EStateM.bind, h]

theorem get_bind_run {f : σ → EStateM ε σ α} {s : σ} : (get >>= f) s = f s s := rfl

theorem map_run_error {x : EStateM ε σ α} {f : α → β} {e : ε} {s s' : σ} (h : x s = .error e s') :
    (f <$> x) s = .error e s' := by
  show EStateM.map f x s = .error e s'
  rw [EStateM.map, h]

theorem foldlM_run_ok {f : β → α → EStateM ε σ β} {l : List α} {b c : β} {s s' : σ}
    (h : l.foldlM f b s = .ok c s') : ∀ a ∈ l, ∃ b' c' t t', f b' a t = .ok c' t' := by
  induction l generalizing b s with
  | nil => simp
  | cons a l ih =>
    rw [List.foldlM_cons, bind_run_eq_ok] at h
    obtain ⟨c', t, hrun, hrest⟩ := h
    rw [List.forall_mem_cons]
    exact ⟨⟨b, c', s, t, hrun⟩, ih hrest⟩

def demand (c : Prop) [Decidable c] (e : ε) : EStateM ε σ Unit := if c then pure () else throw e

theorem demand_bind_run_eq_ok {c : Prop} [Decidable c] {e : ε} {f : Unit → EStateM ε σ β} {b : β} {s s' : σ} :
    (demand c e >>= f) s = .ok b s' ↔ c ∧ f () s = .ok b s' := by
  rw [bind_run_eq_ok]
  unfold demand
  by_cases hc : c
  · simp only [hc, true_and]
    constructor
    · rintro ⟨a, t, hrun, hf⟩
      cases hrun
      exact hf
    · exact fun hf => ⟨(), s, rfl, hf⟩
  · simp only [hc, false_and, iff_false]
    rintro ⟨a, t, hrun, _⟩
    cases hrun

theorem demand_bind_run_of {c : Prop} [Decidable c] {e : ε} {f : Unit → EStateM ε σ β} {s : σ} (h : c) :
    (demand c e >>= f) s = f () s := by
  refine bind_run_of_ok ?_
  rw [demand, if_pos h]
  rfl

theorem demand_bind_run_error {c : Prop} [Decidable c] {e : ε} {f : Unit → EStateM ε σ β} {s : σ} (h : ¬ c) :
    (demand c e >>= f) s = .error e s := by
  refine bind_run_error ?_
  rw [demand, if_neg h]
  rfl

def orThrow (e : ε) : Option α → EStateM ε σ α
  | some a => pure a
  | none => throw e

def fromExcept : Except ε α → EStateM ε σ α
  | .ok a => pure a
  | .error e => throw e

theorem fromExcept_run_eq_ok {r : Except ε α} {a : α} {s s' : σ} :
    (fromExcept r : EStateM ε σ α) s = .ok a s' ↔ r = .ok a ∧ s = s' := by
  cases r with
  | error e =>
    refine ⟨fun h => ?_, fun h => absurd h.1 (by simp)⟩
    cases h
  | ok b =>
    constructor
    · intro h
      cases h
      exact ⟨rfl, rfl⟩
    · rintro ⟨h, rfl⟩
      cases h
      rfl

/-- The program with its error reported as another one. -/
def mapError {ε' : Type} (f : ε → ε') (x : EStateM ε σ α) : EStateM ε' σ α := fun s =>
  match x s with
  | .ok a t => .ok a t
  | .error e t => .error (f e) t

theorem mapError_run_eq_ok {ε' : Type} {f : ε → ε'} {x : EStateM ε σ α} {a : α} {s s' : σ} :
    mapError f x s = .ok a s' ↔ x s = .ok a s' := by
  unfold mapError
  cases x s with
  | ok b t => simp
  | error e t => simp

def Leaves (K P : σ → Prop) (x : EStateM ε σ α) (Q : σ → Prop) : Prop :=
  ∀ s, P s → (∀ a t, x s = .ok a t → Q t) ∧ ∀ e t, x s = .error e t → K t

/-- The state is the same after the program, however it ends. -/
def Reads (x : EStateM ε σ α) : Prop :=
  ∀ s, (∃ a, x s = .ok a s) ∨ ∃ e, x s = .error e s

section rules
variable {K P Q R : σ → Prop} {x : EStateM ε σ α}

theorem Leaves.bind {f : α → EStateM ε σ β} (hx : Leaves K P x R) (hf : ∀ a, Leaves K R (f a) Q) :
    Leaves K P (x >>= f) Q := by
  intro s hs
  obtain ⟨hok, herror⟩ := hx s hs
  show (∀ b t, EStateM.bind x f s = .ok b t → Q t) ∧ ∀ e t, EStateM.bind x f s = .error e t → K t
  rw [EStateM.bind]
  cases hrun : x s with
  | ok a t => exact hf a t (hok a t hrun)
  | error e t =>
    refine ⟨fun b t' h => (by cases h), fun e' t' h => ?_⟩
    cases h
    exact herror e t hrun

theorem Reads.leaves (hx : Reads x) (h : ∀ s, P s → K s) : Leaves K P x P := by
  intro s hs
  obtain ⟨a, hrun⟩ | ⟨e, hrun⟩ := hx s
  · rw [hrun]
    refine ⟨fun b t h => ?_, fun e t h => (by cases h)⟩
    cases h
    exact hs
  · rw [hrun]
    refine ⟨fun b t h => (by cases h), fun e' t h' => ?_⟩
    cases h'
    exact h s hs

theorem leaves_modify {f : σ → σ} (h : ∀ s, P s → Q (f s)) :
    Leaves K P (modify f : EStateM ε σ PUnit) Q := by
  intro s hs
  refine ⟨fun a t hrun => ?_, fun e t hrun => (by cases hrun)⟩
  cases hrun
  exact h s hs

end rules

/-! ## Both ways a program can end -/

/-- The program as one that does not fail, but returns what it failed with. -/
def attempt (x : EStateM ε σ α) : EStateM ε σ (Except ε α) := fun s =>
  match x s with
  | .ok a t => .ok (.ok a) t
  | .error e t => .ok (.error e) t

/-- Begun in `s`, the program returns with `Q` or fails with `E`. -/
def wp (x : EStateM ε σ α) (Q : α → σ → Prop) (E : ε → σ → Prop) (s : σ) : Prop :=
  match x s with
  | .ok a t => Q a t
  | .error e t => E e t

section wp
variable {x : EStateM ε σ α} {Q Q' : α → σ → Prop} {E E' : ε → σ → Prop} {s : σ}

theorem wp_mono (h : wp x Q E s) (hQ : ∀ a t, Q a t → Q' a t) (hE : ∀ e t, E e t → E' e t) : wp x Q' E' s := by
  unfold wp at h ⊢
  cases hrun : x s with
  | ok a t =>
    rw [hrun] at h
    exact hQ a t h
  | error e t =>
    rw [hrun] at h
    exact hE e t h

@[simp] theorem wp_pure {a : α} : wp (pure a : EStateM ε σ α) Q E s ↔ Q a s := Iff.rfl

@[simp] theorem wp_throw {e : ε} : wp (throw e : EStateM ε σ α) Q E s ↔ E e s := Iff.rfl

@[simp] theorem wp_get {Q : σ → σ → Prop} : wp (get : EStateM ε σ σ) Q E s ↔ Q s s := Iff.rfl

@[simp] theorem wp_modify {f : σ → σ} {Q : PUnit → σ → Prop} :
    wp (modify f : EStateM ε σ PUnit) Q E s ↔ Q ⟨⟩ (f s) := Iff.rfl

@[simp] theorem wp_bind {f : α → EStateM ε σ β} {Q : β → σ → Prop} :
    wp (x >>= f) Q E s ↔ wp x (fun a => wp (f a) Q E) E s := by
  unfold wp
  show (match EStateM.bind x f s with
    | .ok a t => Q a t
    | .error e t => E e t) ↔ _
  rw [EStateM.bind]
  cases x s with
  | ok a t => rfl
  | error e t => rfl

@[simp] theorem wp_map {f : α → β} {Q : β → σ → Prop} :
    wp (f <$> x) Q E s ↔ wp x (fun a => Q (f a)) E s := by
  unfold wp
  show (match EStateM.map f x s with
    | .ok a t => Q a t
    | .error e t => E e t) ↔ _
  rw [EStateM.map]
  cases x s with
  | ok a t => rfl
  | error e t => rfl

@[simp] theorem wp_attempt {Q : Except ε α → σ → Prop} :
    wp (attempt x) Q E s ↔ wp x (fun a => Q (.ok a)) (fun e => Q (.error e)) s := by
  unfold wp attempt
  cases x s with
  | ok a t => rfl
  | error e t => rfl

theorem wp_ok {a : α} {t : σ} (h : wp x Q E s) (hrun : x s = .ok a t) : Q a t := by
  unfold wp at h
  rw [hrun] at h
  exact h

theorem wp_error {e : ε} {t : σ} (h : wp x Q E s) (hrun : x s = .error e t) : E e t := by
  unfold wp at h
  rw [hrun] at h
  exact h

def after (x : EStateM ε σ α) (s : σ) : σ :=
  match x s with
  | .ok _ t => t
  | .error _ t => t

theorem wp_after (h : wp x Q E s) :
    wp x (fun a t => after x s = t ∧ Q a t) (fun e t => after x s = t ∧ E e t) s := by
  unfold wp after at *
  cases hrun : x s with
  | ok a t =>
    rw [hrun] at h
    exact ⟨rfl, h⟩
  | error e t =>
    rw [hrun] at h
    exact ⟨rfl, h⟩

theorem after_of_wp {P : σ → Prop} (h : wp x (fun _ => P) (fun _ => P) s) : P (after x s) := by
  unfold wp at h
  unfold after
  cases hrun : x s with
  | ok a t =>
    rw [hrun] at h
    exact h
  | error e t =>
    rw [hrun] at h
    exact h

end wp

/-! ## A relation every run keeps -/

/-- However the program ends, its last state is related to its first. -/
def Keeps (R : σ → σ → Prop) (x : EStateM ε σ α) : Prop := ∀ s, wp x (fun _ => R s) (fun _ => R s) s

section keeps
variable {R : σ → σ → Prop} {x : EStateM ε σ α}

theorem wp_top (x : EStateM ε σ α) (s : σ) : wp x (fun _ _ => True) (fun _ _ => True) s := by
  unfold wp
  cases x s with
  | ok a t => trivial
  | error e t => trivial

theorem keeps_pure (hrefl : ∀ s, R s s) (a : α) : Keeps R (pure a : EStateM ε σ α) := hrefl

theorem keeps_throw (hrefl : ∀ s, R s s) (e : ε) : Keeps R (throw e : EStateM ε σ α) := hrefl

theorem keeps_get (hrefl : ∀ s, R s s) : Keeps R (get : EStateM ε σ σ) := hrefl

theorem keeps_modify {f : σ → σ} (h : ∀ s, R s (f s)) : Keeps R (modify f : EStateM ε σ PUnit) := h

theorem Keeps.bind {f : α → EStateM ε σ β} (hx : Keeps R x) (hf : ∀ a, Keeps R (f a))
    (htrans : ∀ {s t u}, R s t → R t u → R s u) : Keeps R (x >>= f) := by
  intro s
  rw [wp_bind]
  refine wp_mono (hx s) (fun a t ht => ?_) (fun _ _ ht => ht)
  exact wp_mono (hf a t) (fun _ _ hu => htrans ht hu) (fun _ _ hu => htrans ht hu)

theorem Keeps.mono {R' : σ → σ → Prop} (hx : Keeps R x) (h : ∀ {s t}, R s t → R' s t) : Keeps R' x :=
  fun s => wp_mono (hx s) (fun _ _ => h) (fun _ _ => h)

end keeps

end Emucap.Lib
