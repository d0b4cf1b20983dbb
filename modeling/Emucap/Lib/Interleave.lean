import Mathlib.Data.List.Induction

/-!
# Programs that interleave on a shared store

A `Prog` issues operations and goes on with their replies; a `Machine` says what one operation does to the shared
store, and `Machine.run` interleaves any number of calls. `Rule` is the proof rule for such runs: every operation of a
call keeps the invariant and stays inside what the call guarantees.
-/

namespace Emucap.Lib

/-! ## Programs -/

inductive Prog (Op : Type) (Reply : Op → Type) (α : Type) where
  | pure (a : α)
  | call (o : Op) (next : Reply o → Prog Op Reply α)

namespace Prog

variable {Op : Type} {Reply : Op → Type} {α β γ ε : Type}

def bind : Prog Op Reply α → (α → Prog Op Reply β) → Prog Op Reply β
  | .pure a, f => f a
  | .call o next, f => .call o fun r => (next r).bind f

instance : Monad (Prog Op Reply) where
  pure := .pure
  bind := .bind

/-- The program that issues one operation and returns its reply. -/
def issue (o : Op) : Prog Op Reply (Reply o) := .call o .pure

def attempt (o : Op) (read : Reply o → Except ε α) : ExceptT ε (Prog Op Reply) α :=
  ExceptT.mk (.call o fun r => .pure (read r))

def ofExcept (r : Except ε α) : ExceptT ε (Prog Op Reply) α := ExceptT.mk (.pure r)

def failIf (c : Prop) [Decidable c] (e : ε) : ExceptT ε (Prog Op Reply) Unit :=
  if c then throw e else Pure.pure ()

variable (allowed : γ → Op → Prop) (next : γ → (o : Op) → Reply o → γ) (can : (o : Op) → Reply o → Prop)

/-- Every operation the program can reach is allowed by what is known when it is issued, for all
replies that can come, and `post` holds of what is known and returned in the end. -/
def wp (post : γ → α → Prop) : Prog Op Reply α → γ → Prop
  | .pure a, g => post g a
  | .call o k, g => allowed g o ∧ ∀ r, can o r → wp post (k r) (next g o r)

variable {allowed next can}

@[simp] theorem wp_bind {post : γ → β → Prop} {x : Prog Op Reply α} {f : α → Prog Op Reply β} {g : γ} :
    wp allowed next can post (x >>= f) g ↔
      wp allowed next can (fun g a => wp allowed next can post (f a) g) x g := by
  induction x generalizing g with
  | pure a => rfl
  | call o k ih => exact and_congr_right fun _ => forall_congr' fun r => imp_congr_right fun _ => ih r

theorem wp_issue_bind {post : γ → β → Prop} {o : Op} {f : Reply o → Prog Op Reply β} {g : γ} :
    wp allowed next can post (issue o >>= f) g ↔
      allowed g o ∧ ∀ r, can o r → wp allowed next can post (f r) (next g o r) := Iff.rfl

theorem wp_mono {post post' : γ → α → Prop} {x : Prog Op Reply α} {g : γ}
    (hpost : ∀ g a, post g a → post' g a) (h : wp allowed next can post x g) :
    wp allowed next can post' x g := by
  induction x generalizing g with
  | pure a => exact hpost g a h
  | call o k ih => exact ⟨h.1, fun r hr => ih r (h.2 r hr)⟩

theorem wp_true {next : γ → (o : Op) → Reply o → γ} {p : Prog Op Reply α} {g : γ} :
    wp (fun _ _ => True) next can (fun _ _ => True) p g := by
  induction p generalizing g with
  | pure a => trivial
  | call o k ih => exact ⟨trivial, fun r _ => ih r⟩

@[simp] theorem wp_attempt {post : γ → Except ε α → Prop} {o : Op} {read : Reply o → Except ε α} {g : γ} :
    wp allowed next can post (attempt o read) g ↔
      allowed g o ∧ ∀ r, can o r → post (next g o r) (read r) := Iff.rfl

@[simp] theorem wp_lift {post : γ → Except ε α → Prop} {x : Prog Op Reply α} {g : γ} :
    wp allowed next can post (ExceptT.lift x) g ↔ wp allowed next can (fun g a => post g (.ok a)) x g :=
  wp_bind

@[simp] theorem wp_seq {post : γ → Except ε β → Prop} {x : ExceptT ε (Prog Op Reply) α}
    {f : α → ExceptT ε (Prog Op Reply) β} {g : γ} :
    wp allowed next can post (x >>= f : ExceptT ε (Prog Op Reply) β) g ↔
      wp allowed next can (fun g r => match r with
        | .ok a => wp allowed next can post (f a) g
        | .error e => post g (.error e)) x g := by
  refine (wp_bind).trans (iff_of_eq (congrArg (fun q => wp allowed next can q x g) ?_))
  funext g r
  cases r with
  | ok a => rfl
  | error e => rfl

/-- The sequence rule: the first part meets `mid`, an error of it meets `post`, and from a result of it the
second part does. -/
theorem wp_then {post : γ → Except ε β → Prop} {mid : γ → Except ε α → Prop}
    {x : ExceptT ε (Prog Op Reply) α} {f : α → ExceptT ε (Prog Op Reply) β} {g : γ}
    (hx : wp allowed next can mid x g) (herror : ∀ g e, mid g (.error e) → post g (.error e))
    (hok : ∀ g a, mid g (.ok a) → wp allowed next can post (f a) g) :
    wp allowed next can post (x >>= f : ExceptT ε (Prog Op Reply) β) g := by
  rw [wp_seq]
  refine wp_mono (fun g r h => ?_) hx
  cases r with
  | ok a => exact hok g a h
  | error e => exact herror g e h

theorem wp_failIf_then {c : Prop} [Decidable c] {e : ε} {post : γ → Except ε β → Prop}
    {f : Unit → ExceptT ε (Prog Op Reply) β} {g : γ} (hfail : c → post g (.error e))
    (hok : ¬ c → wp allowed next can post (f ()) g) :
    wp allowed next can post (failIf c e >>= f : ExceptT ε (Prog Op Reply) β) g := by
  unfold failIf
  split_ifs with hc
  · exact hfail hc
  · exact hok hc

def embed {Op' : Type} {Reply' : Op' → Type} (into : Op → Op') (reply : (o : Op) → Reply' (into o) → Reply o) :
    Prog Op Reply α → Prog Op' Reply' α
  | .pure a => .pure a
  | .call o next => .call (into o) fun r => (next (reply o r)).embed into reply

theorem wp_embed {Op' : Type} {Reply' : Op' → Type} {into : Op → Op'}
    {reply : (o : Op) → Reply' (into o) → Reply o} {allowed' : γ → Op' → Prop}
    {next' : γ → (o : Op') → Reply' o → γ} {can' : (o : Op') → Reply' o → Prop} {post : γ → α → Prop}
    {p : Prog Op Reply α} {g : γ} (hallowed : ∀ g o, allowed g o → allowed' g (into o))
    (hnext : ∀ g o r, next' g (into o) r = next g o (reply o r))
    (hcan : ∀ o r, can' (into o) r → can o (reply o r)) (h : wp allowed next can post p g) :
    wp allowed' next' can' post (p.embed into reply) g := by
  induction p generalizing g with
  | pure a => exact h
  | call o k ih =>
    refine ⟨hallowed g o h.1, fun r hr => ?_⟩
    rw [hnext]
    exact ih _ (h.2 _ (hcan o r hr))

end Prog

/-! ## One program alone -/

namespace Prog

variable {Op : Type} {Reply : Op → Type} {α β ε σ : Type} (exec : (o : Op) → σ → Option (Reply o) × σ)

/-- The program run by itself. No result means that it was cut off. -/
def eval : Prog Op Reply α → σ → Option α × σ
  | .pure a, s => (some a, s)
  | .call o next, s =>
    match exec o s with
    | (some r, s') => (next r).eval s'
    | (none, s') => (none, s')

variable {exec}

theorem eval_call {o : Op} {k : Reply o → Prog Op Reply α} {s s' : σ} {r : Reply o}
    (h : exec o s = (some r, s')) : (call o k).eval exec s = (k r).eval exec s' := by
  rw [eval, h]

theorem eval_cut {o : Op} {k : Reply o → Prog Op Reply α} {s s' : σ} (h : exec o s = (none, s')) :
    (call o k).eval exec s = (none, s') := by
  rw [eval, h]

theorem eval_bind (x : Prog Op Reply α) (f : α → Prog Op Reply β) (s : σ) :
    (x >>= f).eval exec s = match x.eval exec s with
      | (some a, s') => (f a).eval exec s'
      | (none, s') => (none, s') := by
  induction x generalizing s with
  | pure a => rfl
  | call o k ih =>
    rcases h : exec o s with ⟨_ | r, s'⟩
    · rw [eval_cut h, show (call o k >>= f) = call o (fun r => k r >>= f) from rfl, eval_cut h]
    · rw [eval_call h, show (call o k >>= f) = call o (fun r => k r >>= f) from rfl, eval_call h]
      exact ih r s'

theorem eval_then {x : ExceptT ε (Prog Op Reply) α} {f : α → ExceptT ε (Prog Op Reply) β} {s s' : σ} {a : α}
    (h : eval exec x s = (some (.ok a), s')) :
    eval exec (x >>= f : ExceptT ε (Prog Op Reply) β) s = eval exec (f a) s' := by
  refine (eval_bind x _ s).trans ?_
  rw [h]
  rfl

theorem eval_attempt {o : Op} {read : Reply o → Except ε α} {s s' : σ} {r : Reply o} (h : exec o s = (some r, s')) :
    eval exec (attempt o read) s = (some (read r), s') := eval_call h

theorem eval_lift_issue {o : Op} {s s' : σ} {r : Reply o} (h : exec o s = (some r, s')) :
    eval exec (ExceptT.lift (issue o) : ExceptT ε (Prog Op Reply) (Reply o)) s = (some (.ok r), s') := eval_call h

theorem eval_failIf {c : Prop} [Decidable c] {e : ε} {s : σ} (h : ¬ c) :
    eval exec (failIf c e : ExceptT ε (Prog Op Reply) Unit) s = (some (.ok ()), s) := by
  unfold failIf
  rw [if_neg h]
  rfl

theorem eval_then_ok {x : ExceptT ε (Prog Op Reply) α} {f : α → ExceptT ε (Prog Op Reply) β} {s s' : σ} {b : β}
    (h : eval exec (x >>= f : ExceptT ε (Prog Op Reply) β) s = (some (.ok b), s')) :
    ∃ a t, eval exec x s = (some (.ok a), t) ∧ eval exec (f a) t = (some (.ok b), s') := by
  have hsame := (eval_bind x (ExceptT.bindCont f) s).symm.trans h
  rcases hx : eval exec x s with ⟨_ | e | a, t⟩
  · rw [hx] at hsame
    cases hsame
  · rw [hx] at hsame
    cases hsame
  · rw [hx] at hsame
    exact ⟨a, t, rfl, hsame⟩

theorem eval_failIf_ok {c : Prop} [Decidable c] {e : ε} {s s' : σ} {u : Unit}
    (h : eval exec (failIf c e : ExceptT ε (Prog Op Reply) Unit) s = (some (.ok u), s')) : ¬ c ∧ s' = s := by
  unfold failIf at h
  by_cases hc : c
  · rw [if_pos hc] at h
    cases h
  · rw [if_neg hc] at h
    exact ⟨hc, (Prod.mk.inj h).2.symm⟩

theorem eval_failIf_then_ok {c : Prop} [Decidable c] {e : ε} {f : Unit → ExceptT ε (Prog Op Reply) β} {s s' : σ}
    {b : β} (h : eval exec (failIf c e >>= f : ExceptT ε (Prog Op Reply) β) s = (some (.ok b), s')) :
    ¬ c ∧ eval exec (f ()) s = (some (.ok b), s') := by
  unfold failIf at h
  by_cases hc : c
  · rw [if_pos hc] at h
    cases h
  · rw [if_neg hc] at h
    exact ⟨hc, h⟩

theorem eval_ofExcept_then_ok {r : Except ε α} {f : α → ExceptT ε (Prog Op Reply) β} {s s' : σ} {b : β}
    (h : eval exec (ofExcept r >>= f : ExceptT ε (Prog Op Reply) β) s = (some (.ok b), s')) :
    ∃ a, r = .ok a ∧ eval exec (f a) s = (some (.ok b), s') := by
  cases r with
  | error e => cases h
  | ok a => exact ⟨a, rfl, h⟩

theorem eval_attempt_ok {o : Op} {read : Reply o → Except ε α} {s s' : σ} {a : α}
    (h : eval exec (attempt o read) s = (some (.ok a), s')) : ∃ r, exec o s = (some r, s') ∧ read r = .ok a := by
  rcases hexec : exec o s with ⟨_ | r, t⟩
  · have hcut : eval exec (attempt o read) s = (none, t) := eval_cut hexec
    rw [hcut] at h
    cases h
  · have heval : eval exec (attempt o read) s = (some (read r), t) := eval_attempt hexec
    rw [heval] at h
    obtain ⟨hread, rfl⟩ := Prod.mk.inj h
    exact ⟨r, rfl, Option.some.inj hread⟩

end Prog

/-! ## Machines and runs -/

/-- What an operation does, given the oracle's choice, and what the calls run. No reply means that the
call is cut off there. -/
structure Machine (Op : Type) (Reply : Op → Type) (α σ ω D : Type) where
  exec : (o : Op) → ω → σ → Option (Reply o) × σ
  body : D → Prog Op Reply α

structure Event (σ ω D : Type) where
  thread : Nat
  call : D
  oracle : ω
  before : σ
  after : σ

structure System (Op : Type) (Reply : Op → Type) (α σ ω D : Type) where
  store : σ
  threads : List (D × Option (Prog Op Reply α))
  log : List (Event σ ω D)

inductive Action (ω D : Type) where
  | spawn (d : D)
  | step (i : Nat) (w : ω)

def Action.spawned {ω D : Type} : Action ω D → Option D
  | .spawn d => some d
  | .step _ _ => none

def own {σ ω D : Type} (i : Nat) (log : List (Event σ ω D)) : List (Event σ ω D) :=
  log.filter fun e => e.thread = i

variable {Op : Type} {Reply : Op → Type} {α σ ω D : Type}

/-- The calls bring different keys, those that bring one. -/
def Distinct {K : Type} (key : D → Option K) (calls : List D) : Prop :=
  calls.Pairwise fun a b => ∀ k, key a = some k → key b ≠ some k

theorem Distinct.unique {K : Type} {key : D → Option K} {calls : List D} (h : Distinct key calls) {i j : Nat}
    {a b : D} {k : K} (hi : calls[i]? = some a) (hj : calls[j]? = some b) (ha : key a = some k)
    (hb : key b = some k) : i = j := by
  obtain ⟨hilt, rfl⟩ := List.getElem?_eq_some_iff.mp hi
  obtain ⟨hjlt, rfl⟩ := List.getElem?_eq_some_iff.mp hj
  have hpairs := List.pairwise_iff_getElem.mp h
  rcases Nat.lt_trichotomy i j with hlt | heq | hgt
  · exact absurd hb (hpairs i j hilt hjlt hlt k ha)
  · exact heq
  · exact absurd ha (hpairs j i hjlt hilt hgt k hb)

theorem Distinct.of_append {K : Type} {key : D → Option K} {calls more : List D}
    (h : Distinct key (calls ++ more)) : Distinct key calls := (List.pairwise_append.mp h).1

namespace System

def init (s : σ) : System Op Reply α σ ω D := ⟨s, [], []⟩

def returned (s : System Op Reply α σ ω D) (i : Nat) (d : D) (a : α) : Prop :=
  s.threads[i]? = some (d, some (.pure a))

def result? (s : System Op Reply α σ ω D) (i : Nat) : Option α :=
  match s.threads[i]? with
  | some (_, some (.pure a)) => some a
  | _ => none

theorem returned_of_result? {s : System Op Reply α σ ω D} {i : Nat} {d : D} {p : α → Bool}
    (hd : (s.threads.map Prod.fst)[i]? = some d) (h : (s.result? i).any p = true) :
    ∃ a, p a = true ∧ s.returned i d a := by
  rw [List.getElem?_map] at hd
  unfold result? at h
  rcases hi : s.threads[i]? with _ | ⟨d', _ | ⟨a⟩ | ⟨o, next⟩⟩
  · simp [hi] at h
  · simp [hi] at h
  · rw [hi] at hd h
    obtain rfl : d' = d := by simpa using hd
    exact ⟨a, by simpa using h, hi⟩
  · simp [hi] at h

end System

namespace Machine

variable (m : Machine Op Reply α σ ω D)

def step (s : System Op Reply α σ ω D) : Action ω D → System Op Reply α σ ω D
  | .spawn d => { s with threads := s.threads ++ [(d, some (m.body d))] }
  | .step i w =>
    match s.threads[i]? with
    | some (d, some (.call o next)) =>
      let (reply, store) := m.exec o w s.store
      ⟨store, s.threads.set i (d, reply.map next), ⟨i, d, w, s.store, store⟩ :: s.log⟩
    | _ => s

def run (s : System Op Reply α σ ω D) (actions : List (Action ω D)) : System Op Reply α σ ω D :=
  actions.foldl m.step s

variable {m} {s : System Op Reply α σ ω D}

theorem step_cases (a : Action ω D) :
    (∃ d, a = .spawn d ∧ m.step s a = { s with threads := s.threads ++ [(d, some (m.body d))] }) ∨
    (∃ i w d o next, a = .step i w ∧ s.threads[i]? = some (d, some (.call o next)) ∧
      m.step s a = ⟨(m.exec o w s.store).2, s.threads.set i (d, (m.exec o w s.store).1.map next),
        ⟨i, d, w, s.store, (m.exec o w s.store).2⟩ :: s.log⟩) ∨
    (a.spawned = none ∧ m.step s a = s) := by
  cases a with
  | spawn d => exact .inl ⟨d, rfl, rfl⟩
  | step i w =>
    rcases hi : s.threads[i]? with _ | ⟨d, _ | ⟨a⟩ | ⟨o, next⟩⟩
    · exact .inr (.inr ⟨rfl, by simp only [step, hi]⟩)
    · exact .inr (.inr ⟨rfl, by simp only [step, hi]⟩)
    · exact .inr (.inr ⟨rfl, by simp only [step, hi]⟩)
    · exact .inr (.inl ⟨i, w, d, o, next, rfl, hi, by simp only [step, hi]⟩)

theorem run_induction {P : System Op Reply α σ ω D → Prop} (h : P s)
    (hstep : ∀ s a, P s → P (m.step s a)) (actions : List (Action ω D)) : P (m.run s actions) := by
  induction actions generalizing s with
  | nil => exact h
  | cons a rest ih => exact ih (hstep s a h)

theorem map_fst_set {β : Type} {threads : List (D × β)} {i : Nat} {d : D} {p q : β} (h : threads[i]? = some (d, p)) :
    (threads.set i (d, q)).map Prod.fst = threads.map Prod.fst := by
  apply List.ext_getElem?
  intro j
  by_cases hj : i = j
  · subst hj
    obtain ⟨hlt, hget⟩ := List.getElem?_eq_some_iff.mp h
    simp [hlt, hget]
  · simp [hj]

theorem calls_run (s : System Op Reply α σ ω D) (actions : List (Action ω D)) :
    (m.run s actions).threads.map Prod.fst = s.threads.map Prod.fst ++ actions.filterMap Action.spawned := by
  induction actions generalizing s with
  | nil => simp [run]
  | cons a rest ih =>
    have h : (m.run s (a :: rest)).threads.map Prod.fst
        = (m.step s a).threads.map Prod.fst ++ rest.filterMap Action.spawned := ih (m.step s a)
    rw [h]
    rcases step_cases (m := m) (s := s) a with ⟨d, rfl, hs⟩ | ⟨i, w, d, o, k, rfl, hi, hs⟩ | ⟨ha, hs⟩
    · simp [hs, Action.spawned]
    · rw [hs, map_fst_set hi]
      rfl
    · rw [hs, List.filterMap_cons_none ha]

end Machine

namespace System

structure Logged (s₀ : σ) (s : System Op Reply α σ ω D) : Prop where
  calls : ∀ e ∈ s.log, (s.threads.map Prod.fst)[e.thread]? = some e.call
  store : s.store = (s.log.head?.map Event.after).getD s₀

theorem Logged.step {m : Machine Op Reply α σ ω D} {s₀ : σ} {s : System Op Reply α σ ω D}
    (h : s.Logged s₀) (a : Action ω D) : (m.step s a).Logged s₀ := by
  rcases Machine.step_cases (m := m) (s := s) a with ⟨d, rfl, hs⟩ | ⟨i, w, d, o, k, rfl, hi, hs⟩ | ⟨-, hs⟩
  · rw [hs]
    refine ⟨fun e he => ?_, h.store⟩
    have hcall := h.calls e he
    rw [List.map_append, List.getElem?_append_left (List.getElem?_eq_some_iff.mp hcall).1]
    exact hcall
  · rw [hs]
    refine ⟨fun e he => ?_, rfl⟩
    rw [Machine.map_fst_set hi]
    rcases List.mem_cons.mp he with rfl | he
    · simp [hi]
    · exact h.calls e he
  · rw [hs]
    exact h

end System

theorem Machine.log_suffix {m : Machine Op Reply α σ ω D} (s : System Op Reply α σ ω D)
    (actions : List (Action ω D)) : s.log <:+ (m.run s actions).log := by
  refine Machine.run_induction (P := fun t => s.log <:+ t.log) List.suffix_rfl (fun t a ht => ?_) actions
  rcases Machine.step_cases (m := m) (s := t) a with ⟨d, rfl, hstep⟩ | ⟨i, w, d, o, k, rfl, hi, hstep⟩ | ⟨-, hstep⟩
  · rw [hstep]
    exact ht
  · rw [hstep]
    exact ht.trans (List.suffix_cons _ _)
  · rw [hstep]
    exact ht

theorem Machine.exec_of_mem_log {m : Machine Op Reply α σ ω D} {s : System Op Reply α σ ω D}
    (h : ∀ e ∈ s.log, ∃ o, e.after = (m.exec o e.oracle e.before).2) (actions : List (Action ω D)) :
    ∀ e ∈ (m.run s actions).log, ∃ o, e.after = (m.exec o e.oracle e.before).2 := by
  refine Machine.run_induction (P := fun s => ∀ e ∈ s.log, ∃ o, e.after = (m.exec o e.oracle e.before).2)
    h (fun s a hs => ?_) actions
  rcases Machine.step_cases (m := m) (s := s) a with ⟨d, rfl, hstep⟩ | ⟨i, w, d, o, k, rfl, hi, hstep⟩ | ⟨-, hstep⟩
  · rw [hstep]
    exact hs
  · rw [hstep]
    intro e he
    rcases List.mem_cons.mp he with rfl | he
    · exact ⟨o, rfl⟩
    · exact hs e he
  · rw [hstep]
    exact hs

/-! ## The proof rule -/

/-- What has to be shown of a machine. `Inv` is the invariant of the store, `Guar d` what an operation of
call `d` may do to it. `Know d g` is what private knowledge `g` of call `d` says about its own operations
and the store; `next` is how a reply extends the knowledge, and `post` what a returned result shows. -/
structure Rule (m : Machine Op Reply α σ ω D) (γ : Type) where
  Inv : σ → Prop
  Guar : D → σ → σ → Prop
  Know : D → γ → List (Event σ ω D) → σ → Prop
  allowed : D → γ → Op → Prop
  next : γ → (o : Op) → Reply o → γ
  can : (o : Op) → Reply o → Prop
  post : D → γ → α → Prop
  start : D → γ
  keeps : ∀ {d g evs o s} w, Inv s → Know d g evs s → allowed d g o →
    Inv (m.exec o w s).2 ∧ Guar d s (m.exec o w s).2
  learns : ∀ {d g evs o s r} i w, Inv s → Know d g evs s → allowed d g o → (m.exec o w s).1 = some r →
    can o r ∧ Know d (next g o r) (⟨i, d, w, s, (m.exec o w s).2⟩ :: evs) (m.exec o w s).2
  stable : ∀ {d d' g evs s s'}, Inv s → Guar d' s s' → Know d g evs s → Know d g evs s'
  begins : ∀ {d s}, Inv s → Know d (start d) [] s
  body : ∀ d, (m.body d).wp (allowed d) next can (post d) (start d)

namespace Rule

variable {m : Machine Op Reply α σ ω D} {γ : Type} (R : Rule m γ)

structure Good (s₀ : σ) (s : System Op Reply α σ ω D) : Prop where
  logged : s.Logged s₀
  inv : R.Inv s.store
  log : ∀ e ∈ s.log, R.Inv e.before ∧ R.Inv e.after ∧ R.Guar e.call e.before e.after
  know : ∀ i d p, s.threads[i]? = some (d, some p) →
    ∃ g, R.Know d g (own i s.log) s.store ∧ p.wp (R.allowed d) R.next R.can (R.post d) g

variable {R} {s₀ : σ}

theorem own_eq_nil {s : System Op Reply α σ ω D} (hs : R.Good s₀ s) : own s.threads.length s.log = [] := by
  refine List.filter_eq_nil_iff.mpr fun e he hthread => ?_
  have hlt := (List.getElem?_eq_some_iff.mp (hs.logged.calls e he)).1
  simp only [decide_eq_true_eq] at hthread
  rw [List.length_map] at hlt
  omega

theorem Good.spawn {s : System Op Reply α σ ω D} (hs : R.Good s₀ s) (d : D) :
    R.Good s₀ { s with threads := s.threads ++ [(d, some (m.body d))] } := by
  refine ⟨hs.logged.step (m := m) (.spawn d), hs.inv, hs.log, fun i d' p hi => ?_⟩
  rcases Nat.lt_or_ge i s.threads.length with hlt | hge
  · rw [List.getElem?_append_left hlt] at hi
    exact hs.know i d' p hi
  · have hlen : i = s.threads.length := by
      have hbound := (List.getElem?_eq_some_iff.mp hi).1
      rw [List.length_append, List.length_singleton] at hbound
      omega
    subst hlen
    rw [List.getElem?_append_right (Nat.le_refl _), Nat.sub_self] at hi
    obtain ⟨rfl, rfl⟩ : d = d' ∧ m.body d = p := by simpa using hi
    rw [own_eq_nil hs]
    exact ⟨R.start d, R.begins hs.inv, R.body d⟩

theorem Good.exec {s : System Op Reply α σ ω D} (hs : R.Good s₀ s) {i : Nat} {d : D} {o : Op}
    {k : Reply o → Prog Op Reply α} (w : ω) (hi : s.threads[i]? = some (d, some (.call o k))) :
    R.Good s₀ ⟨(m.exec o w s.store).2, s.threads.set i (d, (m.exec o w s.store).1.map k),
      ⟨i, d, w, s.store, (m.exec o w s.store).2⟩ :: s.log⟩ := by
  obtain ⟨g, hknow, hallowed, hwp⟩ := hs.know i d _ hi
  obtain ⟨hinv, hguar⟩ := R.keeps w hs.inv hknow hallowed
  have hlogged := hs.logged.step (m := m) (.step i w)
  simp only [Machine.step, hi] at hlogged
  refine ⟨hlogged, hinv, ?_, ?_⟩
  · intro e he
    rcases List.mem_cons.mp he with rfl | he
    · exact ⟨hs.inv, hinv, hguar⟩
    · exact hs.log e he
  · intro j d' p hj
    by_cases hij : i = j
    · subst hij
      rw [List.getElem?_set_self (List.getElem?_eq_some_iff.mp hi).1] at hj
      obtain ⟨rfl, r, hr, rfl⟩ : d = d' ∧ ∃ r, (m.exec o w s.store).1 = some r ∧ k r = p := by
        simpa using hj
      obtain ⟨hcan, hknow'⟩ := R.learns i w hs.inv hknow hallowed hr
      refine ⟨_, ?_, hwp r hcan⟩
      simpa [own] using hknow'
    · rw [List.getElem?_set_ne hij] at hj
      obtain ⟨g', hknow', hwp'⟩ := hs.know j d' p hj
      refine ⟨g', ?_, hwp'⟩
      have hown : own j (⟨i, d, w, s.store, (m.exec o w s.store).2⟩ :: s.log) = own j s.log := by
        simp [own, hij]
      rw [hown]
      exact R.stable hs.inv hguar hknow'

theorem Good.step {s : System Op Reply α σ ω D} (hs : R.Good s₀ s) (a : Action ω D) : R.Good s₀ (m.step s a) := by
  rcases Machine.step_cases (m := m) (s := s) a with ⟨d, rfl, h⟩ | ⟨i, w, d, o, k, rfl, hi, h⟩ | ⟨-, h⟩
  · rw [h]
    exact hs.spawn d
  · rw [h]
    exact hs.exec w hi
  · rw [h]
    exact hs

theorem sound (R : Rule m γ) (h : R.Inv s₀) (actions : List (Action ω D)) :
    R.Good s₀ (m.run (System.init s₀) actions) := by
  have hinit : R.Good s₀ (System.init s₀) :=
    ⟨⟨fun _ he => (nomatch he), rfl⟩, h, fun _ he => (nomatch he), fun _ _ _ hi => (nomatch hi)⟩
  exact Machine.run_induction hinit (fun _ a hs => hs.step a) actions

end Rule

/-! ## The joint rule -/

/-- What has to be shown of a machine whose invariant is about the calls together: `Inv` sees what every
call knows, the log and the store. `Calls` says which calls may be started. -/
structure Joint (m : Machine Op Reply α σ ω D) (γ : Type) where
  Calls : List D → Prop
  Inv : List (D × γ) → List (Event σ ω D) → σ → Prop
  allowed : D → γ → Op → Prop
  next : D → γ → (o : Op) → Reply o → γ
  post : D → γ → α → Prop
  start : D → γ
  shorter : ∀ {ds d}, Calls (ds ++ [d]) → Calls ds
  begins : ∀ {known log s d}, Calls (known.map Prod.fst ++ [d]) → Inv known log s →
    own known.length log = [] → Inv (known ++ [(d, start d)]) log s
  moves : ∀ {known log s i d g o} w, Calls (known.map Prod.fst) → Inv known log s →
    known[i]? = some (d, g) → allowed d g o →
    Inv (known.set i (d, (m.exec o w s).1.elim g (next d g o)))
      (⟨i, d, w, s, (m.exec o w s).2⟩ :: log) (m.exec o w s).2
  body : ∀ d, (m.body d).wp (allowed d) (next d) (fun _ _ => True) (post d) (start d)

namespace Joint

variable {m : Machine Op Reply α σ ω D} {γ : Type} (R : Joint m γ)

/-- The invariant of a run: there is knowledge of the calls that meets `Inv`, and what is left of every
call keeps to it. -/
structure Good (s₀ : σ) (known : List (D × γ)) (s : System Op Reply α σ ω D) : Prop where
  logged : s.Logged s₀
  calls : known.map Prod.fst = s.threads.map Prod.fst
  inv : R.Inv known s.log s.store
  rest : ∀ (i : Nat) d (p : Prog Op Reply α), s.threads[i]? = some (d, some p) →
    ∃ g, known[i]? = some (d, g) ∧ p.wp (R.allowed d) (R.next d) (fun _ _ => True) (R.post d) g

variable {R} {s₀ : σ} {known : List (D × γ)}

theorem Good.length {s : System Op Reply α σ ω D} (h : R.Good s₀ known s) :
    known.length = s.threads.length := by
  have := congrArg List.length h.calls
  simpa using this

theorem Good.spawn {s : System Op Reply α σ ω D} (h : R.Good s₀ known s) {d : D}
    (hcalls : R.Calls (known.map Prod.fst ++ [d])) :
    R.Good s₀ (known ++ [(d, R.start d)]) { s with threads := s.threads ++ [(d, some (m.body d))] } := by
  have hown : own known.length s.log = [] := by
    refine List.filter_eq_nil_iff.mpr fun e he hthread => ?_
    have hlt := (List.getElem?_eq_some_iff.mp (h.logged.calls e he)).1
    simp only [decide_eq_true_eq] at hthread
    rw [List.length_map] at hlt
    have hlen := h.length
    omega
  refine ⟨h.logged.step (m := m) (.spawn d), ?_, R.begins hcalls h.inv hown, fun i d' p hi => ?_⟩
  · simp [h.calls]
  · rcases Nat.lt_or_ge i s.threads.length with hlt | hge
    · rw [List.getElem?_append_left hlt] at hi
      rw [List.getElem?_append_left (h.length.symm ▸ hlt)]
      exact h.rest i d' p hi
    · have hlen : i = s.threads.length := by
        have hbound := (List.getElem?_eq_some_iff.mp hi).1
        rw [List.length_append, List.length_singleton] at hbound
        omega
      subst hlen
      rw [List.getElem?_append_right (Nat.le_refl _), Nat.sub_self] at hi
      obtain ⟨rfl, rfl⟩ : d = d' ∧ m.body d = p := by simpa using hi
      refine ⟨R.start d, ?_, R.body d⟩
      rw [List.getElem?_append_right (Nat.le_of_eq h.length), h.length, Nat.sub_self]
      rfl

theorem Good.exec {s : System Op Reply α σ ω D} (h : R.Good s₀ known s) (hcalls : R.Calls (known.map Prod.fst))
    {i : Nat} {d : D} {o : Op} {k : Reply o → Prog Op Reply α} (w : ω)
    (hi : s.threads[i]? = some (d, some (.call o k))) :
    ∃ known' : List (D × γ), known'.map Prod.fst = known.map Prod.fst ∧
      R.Good s₀ known' ⟨(m.exec o w s.store).2, s.threads.set i (d, (m.exec o w s.store).1.map k),
        ⟨i, d, w, s.store, (m.exec o w s.store).2⟩ :: s.log⟩ := by
  obtain ⟨g, hg, hallowed, hwp⟩ := h.rest i d _ hi
  have hlogged := h.logged.step (m := m) (.step i w)
  simp only [Machine.step, hi] at hlogged
  have hfst : (known.set i (d, (m.exec o w s.store).1.elim g (R.next d g o))).map Prod.fst
      = known.map Prod.fst := Machine.map_fst_set hg
  refine ⟨_, hfst, hlogged, ?_, R.moves w hcalls h.inv hg hallowed, ?_⟩
  · rw [hfst, Machine.map_fst_set hi]
    exact h.calls
  · intro j d' p hj
    by_cases hij : i = j
    · subst hij
      rw [List.getElem?_set_self (List.getElem?_eq_some_iff.mp hi).1] at hj
      obtain ⟨rfl, r, hr, rfl⟩ : d = d' ∧ ∃ r, (m.exec o w s.store).1 = some r ∧ k r = p := by
        simpa using hj
      refine ⟨R.next d g o r, ?_, hwp r trivial⟩
      rw [List.getElem?_set_self (List.getElem?_eq_some_iff.mp hg).1, hr]
      rfl
    · rw [List.getElem?_set_ne hij] at hj ⊢
      exact h.rest j d' p hj

/-- Every run from a store that meets the invariant is good, as long as its calls may be started. -/
theorem sound (R : Joint m γ) (h : R.Inv [] [] s₀) {actions : List (Action ω D)}
    (hcalls : R.Calls (actions.filterMap Action.spawned)) :
    ∃ known, R.Good s₀ known (m.run (System.init s₀) actions) := by
  induction actions using List.reverseRecOn with
  | nil => exact ⟨[], ⟨fun _ he => (nomatch he), rfl⟩, rfl, h, fun _ _ _ hi => (nomatch hi)⟩
  | append_singleton rest a ih =>
    have hrun : m.run (System.init s₀) (rest ++ [a]) = m.step (m.run (System.init s₀) rest) a := by
      simp [Machine.run]
    rw [List.filterMap_append] at hcalls
    rw [hrun]
    have hspawned (known : List (D × γ)) (hgood : R.Good s₀ known (m.run (System.init s₀) rest)) :
        known.map Prod.fst = rest.filterMap Action.spawned := by
      rw [hgood.calls, Machine.calls_run]
      rfl
    rcases Machine.step_cases (m := m) (s := m.run (System.init s₀) rest) a with
      ⟨d, rfl, hs⟩ | ⟨i, w, d, o, k, rfl, hi, hs⟩ | ⟨ha, hs⟩
    · obtain ⟨known, hgood⟩ := ih (R.shorter hcalls)
      rw [hs]
      exact ⟨_, hgood.spawn (by rw [hspawned known hgood]; exact hcalls)⟩
    · rw [List.filterMap_cons_none rfl, List.filterMap_nil, List.append_nil] at hcalls
      obtain ⟨known, hgood⟩ := ih hcalls
      rw [hs]
      obtain ⟨known', -, hgood'⟩ := hgood.exec (by rw [hspawned known hgood]; exact hcalls) w hi
      exact ⟨known', hgood'⟩
    · rw [List.filterMap_cons_none ha, List.filterMap_nil, List.append_nil] at hcalls
      obtain ⟨known, hgood⟩ := ih hcalls
      rw [hs]
      exact ⟨known, hgood⟩

end Joint

end Emucap.Lib
