import Emucap.Lib.Settled

/-!
# Requests and their answers on one stream

A server consumes lines, each at its own position, and writes answers. At most one request is running; while it runs,
`working` notices may be written for it and further requests are answered on the side. `Moves` is one entry of the log,
`Talk` a whole log, and `Ledger` what such a log says about every request.
-/

namespace Emucap.Lib.Dialogue

inductive Entry (α β : Type) where
  | consumed (q : ℕ) (line : α)
  | started (q : ℕ)
  | working (q : ℕ) (notice : β)
  | wrote (q : ℕ) (answer : β)
  /-- an answer or a notice that could not be written -/
  | lost (q : ℕ)
  /-- the peer is gone or cannot be read -/
  | broken
  deriving DecidableEq

def Entry.answers {α β : Type} : Entry α β → Option (ℕ × β)
  | .working q notice => some (q, notice)
  | .wrote q answer => some (q, answer)
  | _ => none

def Entry.loses {α β : Type} : Entry α β → Bool
  | .lost _ | .broken => true
  | _ => false

structure State (α : Type) where
  next : ℕ
  /-- the request that is running -/
  active : Option (ℕ × α)
  /-- a line that was consumed and is not settled yet -/
  pending : Option (ℕ × α)
  halted : Bool

def State.start (α : Type) : State α := ⟨0, none, none, false⟩

section
variable {α β : Type} (Asks : α → Prop) (Own Aside : α → β → Prop)

inductive Moves : State α → Entry α β → State α → Prop
  | skip {n active line} : ¬ Asks line →
      Moves ⟨n, active, none, false⟩ (.consumed n line) ⟨n + 1, active, none, false⟩
  | consume {n active line} :
      Moves ⟨n, active, none, false⟩ (.consumed n line) ⟨n + 1, active, some (n, line), false⟩
  | answer {n q line answer} : Own line answer →
      Moves ⟨n, none, some (q, line), false⟩ (.wrote q answer) ⟨n, none, none, false⟩
  | aside {n p q line answer} : Aside line answer →
      Moves ⟨n, some p, some (q, line), false⟩ (.wrote q answer) ⟨n, some p, none, false⟩
  | start {n q line} : Moves ⟨n, none, some (q, line), false⟩ (.started q) ⟨n, some (q, line), none, false⟩
  | working {n q line notice} : Own line notice →
      Moves ⟨n, some (q, line), none, false⟩ (.working q notice) ⟨n, some (q, line), none, false⟩
  | finish {n q line answer} : Own line answer →
      Moves ⟨n, some (q, line), none, false⟩ (.wrote q answer) ⟨n, none, none, false⟩
  | lose {n active pending e} : e.loses = true → Moves ⟨n, active, pending, false⟩ e ⟨n, active, pending, true⟩

inductive Talk : State α → List (Entry α β) → Prop
  | nil : Talk (.start α) []
  | concat {s s' log e} : Talk s log → Moves Asks Own Aside s e s' → Talk s' (log ++ [e])

inductive Steps : State α → List (Entry α β) → State α → Prop
  | nil {s} : Steps s [] s
  | cons {s s' s'' e es} : Moves Asks Own Aside s e s' → Steps s' es s'' → Steps s (e :: es) s''

structure Ledger (s : State α) (log : List (Entry α β)) : Prop where
  next : ∀ (i : ℕ) q line, log[i]? = some (.consumed q line) → q < s.next
  ascending : ∀ (i j : ℕ) p q l line, i < j → log[i]? = some (.consumed p l) → log[j]? = some (.consumed q line) → p < q
  settled : ∀ (i : ℕ) q line, log[i]? = some (.consumed q line) → Asks line →
    s.active = some (q, line) ∨ s.pending = some (q, line) ∨
      ∃ (k : ℕ) (answer : β), log[k]? = some (.wrote q answer) ∧ (Own line answer ∨ Aside line answer)
  waiting : ∀ q line, s.active = some (q, line) ∨ s.pending = some (q, line) →
    (∃ i : ℕ, log[i]? = some (.consumed q line)) ∧ ∀ (k : ℕ) answer, log[k]? ≠ some (.wrote q answer)
  framed : ∀ (j : ℕ) q b e, log[j]? = some e → e.answers = some (q, b) →
    (∃ i : ℕ, i < j ∧ ∃ line, log[i]? = some (.consumed q line) ∧ (Own line b ∨ Aside line b)) ∧
      ∀ (k : ℕ) answer, log[k]? = some (.wrote q answer) → j ≤ k
  asides : ∀ (i j : ℕ) p q l line, i < j → log[i]? = some (.consumed p l) → log[j]? = some (.consumed q line) →
    Asks line → ∀ (k : ℕ) answer, j < k → log[k]? = some (.wrote p answer) →
      ∃ (m : ℕ) (answer' : β), j < m ∧ m < k ∧ log[m]? = some (.wrote q answer') ∧ Aside line answer'
  beside : ∀ (i j : ℕ) p q l line, i < j → log[i]? = some (.consumed p l) → log[j]? = some (.consumed q line) →
    Asks line → s.active = some (p, l) → s.pending = some (q, line) ∨
      ∃ (m : ℕ) (answer' : β), j < m ∧ log[m]? = some (.wrote q answer') ∧ Aside line answer'
  apart : ∀ p q l line, s.active = some (p, l) → s.pending = some (q, line) → p < q
  latest : ∀ q line, s.pending = some (q, line) → q + 1 = s.next
  last : ∀ (i : ℕ) e, log[i]? = some e → e.loses = true → i + 1 = log.length ∧ s.halted = true

end

section
variable {α β : Type} {Asks : α → Prop} {Own Aside : α → β → Prop} {s s' : State α} {log : List (Entry α β)}
  {e : Entry α β}

theorem getElem?_grow {i : ℕ} {x : Entry α β} (h : log[i]? = some x) : (log ++ [e])[i]? = some x := by
  rw [List.getElem?_append_left (List.getElem?_eq_some_iff.mp h).1, h]

theorem lt_length {i : ℕ} {x : Entry α β} (h : log[i]? = some x) : i < log.length :=
  (List.getElem?_eq_some_iff.mp h).1

theorem Ledger.nil : Ledger Asks Own Aside (.start α) ([] : List (Entry α β)) where
  next := by simp
  ascending := by simp
  settled := by simp
  waiting := by simp [State.start]
  framed := by simp
  asides := by simp
  beside := by simp
  apart := by simp [State.start]
  latest := by simp [State.start]
  last := by simp

theorem Ledger.consumed {n : ℕ} {active : Option (ℕ × α)} {line : α} {pending : Option (ℕ × α)}
    (h : Ledger Asks Own Aside ⟨n, active, none, false⟩ log)
    (hpending : pending = none ∧ ¬ Asks line ∨ pending = some (n, line)) :
    Ledger Asks Own Aside ⟨n + 1, active, pending, false⟩ (log ++ [.consumed n line]) := by
  have hmine : ∀ q l, pending = some (q, l) → q = n ∧ l = line := by
    intro q l hq
    rcases hpending with ⟨hnone, -⟩ | hsome
    · rw [hnone] at hq
      cases hq
    · rw [hsome] at hq
      cases hq
      exact ⟨rfl, rfl⟩
  have hasks : ∀ l, l = line → Asks l → pending = some (n, l) := by
    rintro l rfl hl
    rcases hpending with ⟨-, hnot⟩ | hsome
    · exact absurd hl hnot
    · exact hsome
  have hwrote : ∀ {k : ℕ} {q : ℕ} {a : β}, (log ++ [Entry.consumed n line])[k]? = some (.wrote q a) →
      log[k]? = some (.wrote q a) := by
    intro k q a hk
    rcases getElem?_concat_cases hk with ⟨hk, -⟩ | ⟨-, hk⟩
    · exact hk
    · cases hk
  refine ⟨?_, ?_, ?_, ?_, ?_, ?_, ?_, ?_, ?_, ?_⟩
  · intro i q l hi
    rcases getElem?_concat_cases hi with ⟨hi, -⟩ | ⟨-, hi⟩
    · exact Nat.lt_succ_of_lt (h.next i q l hi)
    · cases hi
      exact Nat.lt_succ_self n
  · intro i j p q l l' hij hi hj
    have hi' : log[i]? = some (.consumed p l) := by
      rcases getElem?_concat_cases hi with ⟨hi, -⟩ | ⟨rfl, -⟩
      · exact hi
      · have hlt := lt_length hj
        rw [List.length_append, List.length_singleton] at hlt
        omega
    rcases getElem?_concat_cases hj with ⟨hj, -⟩ | ⟨-, hj⟩
    · exact h.ascending i j p q l l' hij hi' hj
    · cases hj
      exact h.next i p l hi'
  · intro i q l hi hl
    rcases getElem?_concat_cases hi with ⟨hi, -⟩ | ⟨-, hi⟩
    · rcases h.settled i q l hi hl with hactive | hpend | ⟨k, a, hk, hown⟩
      · exact .inl hactive
      · cases hpend
      · exact .inr (.inr ⟨k, a, getElem?_grow hk, hown⟩)
    · cases hi
      exact .inr (.inl (hasks line rfl hl))
  · intro q l hq
    rcases hq with hactive | hpend
    · obtain ⟨⟨i, hi⟩, hnone⟩ := h.waiting q l (.inl hactive)
      exact ⟨⟨i, getElem?_grow hi⟩, fun k a hk => hnone k a (hwrote hk)⟩
    · obtain ⟨rfl, rfl⟩ := hmine q l hpend
      refine ⟨⟨log.length, List.getElem?_concat_length⟩, fun k a hk => ?_⟩
      obtain ⟨⟨i, -, l', hi, -⟩, -⟩ := h.framed k q _ _ (hwrote hk) rfl
      exact Nat.lt_irrefl q (h.next i q l' hi)
  · intro j q b e hj he
    rcases getElem?_concat_cases hj with ⟨hj, -⟩ | ⟨-, rfl⟩
    · obtain ⟨⟨i, hij, l, hi, hown⟩, hfirst⟩ := h.framed j q b e hj he
      exact ⟨⟨i, hij, l, getElem?_grow hi, hown⟩, fun k a hk => hfirst k a (hwrote hk)⟩
    · cases he
  · intro i j p q l l' hij hi hj hl k a hjk hk
    have hk' := hwrote hk
    have hklt := lt_length hk'
    rcases getElem?_concat_cases hi with ⟨hi, -⟩ | ⟨hlen, -⟩
    · rcases getElem?_concat_cases hj with ⟨hj, -⟩ | ⟨hlen, -⟩
      · obtain ⟨m, a', hjm, hmk, hm, haside⟩ := h.asides i j p q l l' hij hi hj hl k a hjk hk'
        exact ⟨m, a', hjm, hmk, getElem?_grow hm, haside⟩
      · omega
    · omega
  · intro i j p q l l' hij hi hj hl hactive
    rcases getElem?_concat_cases hj with ⟨hj, hjlt⟩ | ⟨-, hj⟩
    · have hi' : log[i]? = some (.consumed p l) := by
        rcases getElem?_concat_cases hi with ⟨hi, -⟩ | ⟨hlen, -⟩
        · exact hi
        · omega
      rcases h.beside i j p q l l' hij hi' hj hl hactive with hpend | ⟨m, a', hjm, hm, haside⟩
      · cases hpend
      · exact .inr ⟨m, a', hjm, getElem?_grow hm, haside⟩
    · cases hj
      exact .inl (hasks line rfl hl)
  · intro p q l l' hactive hpend
    obtain ⟨rfl, rfl⟩ := hmine q l' hpend
    obtain ⟨⟨i, hi⟩, -⟩ := h.waiting p l (.inl hactive)
    exact h.next i p l hi
  · intro q l hpend
    rw [(hmine q l hpend).1]
  · intro i e he hloses
    rcases getElem?_concat_cases he with ⟨he, -⟩ | ⟨-, rfl⟩
    · obtain ⟨-, hhalted⟩ := h.last i e he hloses
      cases hhalted
    · cases hloses

theorem Ledger.wrote {q : ℕ} {line : α} {answer : β} (h : Ledger Asks Own Aside s log) (hhalted : s.halted = false)
    (hgood : Own line answer ∨ Aside line answer) (hnext : s'.next = s.next) (hpending : s'.pending = none)
    (hcase : s.active = some (q, line) ∧ s.pending = none ∧ s'.active = none ∨
      s.pending = some (q, line) ∧ s'.active = s.active ∧ ∀ p, s.active = some p → Aside line answer) :
    Ledger Asks Own Aside s' (log ++ [.wrote q answer]) := by
  have hwaiting := h.waiting q line (hcase.imp (fun hc => hc.1) (fun hc => hc.1))
  have hconsumed : ∀ {i p : ℕ} {l : α}, (log ++ [Entry.wrote q answer])[i]? = some (.consumed p l) →
      log[i]? = some (.consumed p l) := by
    intro i p l hi
    rcases getElem?_concat_cases hi with ⟨hi, -⟩ | ⟨-, hi⟩
    · exact hi
    · cases hi
  have hactive : ∀ p l, s'.active = some (p, l) → s.active = some (p, l) ∧ p ≠ q := by
    intro p l hp
    rcases hcase with ⟨-, -, hnone⟩ | ⟨hpend, hsame, -⟩
    · rw [hnone] at hp
      cases hp
    · rw [hsame] at hp
      exact ⟨hp, Nat.ne_of_lt (h.apart p q l line hp hpend)⟩
  refine ⟨?_, ?_, ?_, ?_, ?_, ?_, ?_, ?_, ?_, ?_⟩
  · intro i p l hi
    rw [hnext]
    exact h.next i p l (hconsumed hi)
  · intro i j p p' l l' hij hi hj
    exact h.ascending i j p p' l l' hij (hconsumed hi) (hconsumed hj)
  · intro i p l hi hl
    rcases h.settled i p l (hconsumed hi) hl with ha | hp | ⟨k, a, hk, hown⟩
    · rcases hcase with ⟨ha', -⟩ | ⟨-, hsame, -⟩
      · rw [ha'] at ha
        cases ha
        exact .inr (.inr ⟨log.length, answer, List.getElem?_concat_length, hgood⟩)
      · rw [hsame]
        exact .inl ha
    · rcases hcase with ⟨-, hnone, -⟩ | ⟨hp', -⟩
      · rw [hnone] at hp
        cases hp
      · rw [hp'] at hp
        cases hp
        exact .inr (.inr ⟨log.length, answer, List.getElem?_concat_length, hgood⟩)
    · exact .inr (.inr ⟨k, a, getElem?_grow hk, hown⟩)
  · intro p l hp
    rcases hp with hp | hp
    · obtain ⟨ha, hne⟩ := hactive p l hp
      obtain ⟨⟨i, hi⟩, hnone⟩ := h.waiting p l (.inl ha)
      refine ⟨⟨i, getElem?_grow hi⟩, fun k a hk => ?_⟩
      rcases getElem?_concat_cases hk with ⟨hk, -⟩ | ⟨-, hk⟩
      · exact hnone k a hk
      · cases hk
        exact hne rfl
    · rw [hpending] at hp
      cases hp
  · intro j p b e hj he
    have hlast : ∀ k a, (log ++ [Entry.wrote q answer])[k]? = some (.wrote p a) → k < log.length →
        log[k]? = some (.wrote p a) := by
      intro k a hk hlt
      rwa [List.getElem?_append_left hlt] at hk
    rcases getElem?_concat_cases hj with ⟨hj, hjlt⟩ | ⟨hjlen, rfl⟩
    · obtain ⟨⟨i, hij, l, hi, hown⟩, hfirst⟩ := h.framed j p b e hj he
      refine ⟨⟨i, hij, l, getElem?_grow hi, hown⟩, fun k a hk => ?_⟩
      by_cases hlt : k < log.length
      · exact hfirst k a (hlast k a hk hlt)
      · omega
    · obtain ⟨rfl, rfl⟩ := Prod.mk.inj (Option.some.inj he)
      obtain ⟨⟨i, hi⟩, hnone⟩ := hwaiting
      refine ⟨⟨i, hjlen ▸ lt_length hi, line, getElem?_grow hi, hgood⟩, fun k a hk => ?_⟩
      by_cases hlt : k < log.length
      · exact absurd (hlast k a hk hlt) (hnone k a)
      · omega
  · intro i j p p' l l' hij hi hj hl k a hjk hk
    have hi' := hconsumed hi
    have hj' := hconsumed hj
    rcases getElem?_concat_cases hk with ⟨hk, -⟩ | ⟨hklen, hk⟩
    · obtain ⟨m, a', hjm, hmk, hm, haside⟩ := h.asides i j p p' l l' hij hi' hj' hl k a hjk hk
      exact ⟨m, a', hjm, hmk, getElem?_grow hm, haside⟩
    · cases hk
      have hlater := h.ascending i j q p' l l' hij hi' hj'
      rcases hcase with ⟨ha, hnone, -⟩ | ⟨hpend, -⟩
      · have hsame : s.active = some (q, l) := by
          obtain ⟨⟨i', hi''⟩, -⟩ := hwaiting
          have hii : i = i' := by
            rcases Nat.lt_trichotomy i i' with hlt | heq | hlt
            · exact absurd (h.ascending i i' q q l line hlt hi' hi'') (Nat.lt_irrefl q)
            · exact heq
            · exact absurd (h.ascending i' i q q line l hlt hi'' hi') (Nat.lt_irrefl q)
          rw [← hii, hi'] at hi''
          cases hi''
          exact ha
        rcases h.beside i j q p' l l' hij hi' hj' hl hsame with hpend | ⟨m, a', hjm, hm, haside⟩
        · rw [hnone] at hpend
          cases hpend
        · exact ⟨m, a', hjm, hklen ▸ lt_length hm, getElem?_grow hm, haside⟩
      · have hend := h.latest q line hpend
        have hbound := h.next j p' l' hj'
        omega
  · intro i j p p' l l' hij hi hj hl hp
    obtain ⟨ha, -⟩ := hactive p l hp
    rcases h.beside i j p p' l l' hij (hconsumed hi) (hconsumed hj) hl ha with hpend | ⟨m, a', hjm, hm, haside⟩
    · rcases hcase with ⟨-, hnone, -⟩ | ⟨hpend', -, haside⟩
      · rw [hnone] at hpend
        cases hpend
      · rw [hpend'] at hpend
        cases hpend
        exact .inr ⟨log.length, answer, lt_length (hconsumed hj), List.getElem?_concat_length, haside _ ha⟩
    · exact .inr ⟨m, a', hjm, getElem?_grow hm, haside⟩
  · intro p p' l l' _ hp
    rw [hpending] at hp
    cases hp
  · intro p l hp
    rw [hpending] at hp
    cases hp
  · intro i e he hloses
    rcases getElem?_concat_cases he with ⟨he, -⟩ | ⟨-, rfl⟩
    · obtain ⟨-, hhalted'⟩ := h.last i e he hloses
      rw [hhalted] at hhalted'
      cases hhalted'
    · cases hloses

/-- An entry that is neither a line nor an answer. The request that starts is the line that was consumed last. -/
theorem Ledger.quiet (h : Ledger Asks Own Aside s log) (hhalted : s.halted = false)
    (hconsumed : ∀ q line, e ≠ .consumed q line) (hwrote : ∀ q answer, e ≠ .wrote q answer)
    (hworking : ∀ q b, e.answers = some (q, b) → ∃ line, s.active = some (q, line) ∧ Own line b) (hnext : s'.next = s.next)
    (hcase : s'.active = s.active ∧ s'.pending = s.pending ∨ s.active = none ∧ s'.active = s.pending ∧ s'.pending = none)
    (hloses : e.loses = true → s'.halted = true) : Ledger Asks Own Aside s' (log ++ [e]) := by
  have hold : ∀ {i : ℕ} {x : Entry α β}, x ≠ e → (log ++ [e])[i]? = some x → log[i]? = some x := by
    intro i x hx hi
    rcases getElem?_concat_cases hi with ⟨hi, -⟩ | ⟨-, hi⟩
    · exact hi
    · exact absurd hi hx
  have hline : ∀ {i q : ℕ} {l : α}, (log ++ [e])[i]? = some (.consumed q l) → log[i]? = some (.consumed q l) :=
    fun hi => hold (hconsumed _ _).symm hi
  have hanswer : ∀ {i q : ℕ} {a : β}, (log ++ [e])[i]? = some (.wrote q a) → log[i]? = some (.wrote q a) :=
    fun hi => hold (hwrote _ _).symm hi
  have howed : ∀ q l, s'.active = some (q, l) ∨ s'.pending = some (q, l) ↔
      s.active = some (q, l) ∨ s.pending = some (q, l) := by
    intro q l
    rcases hcase with ⟨ha, hp⟩ | ⟨hnone, ha, hp⟩
    · rw [ha, hp]
    · rw [ha, hp, hnone]
      simp
  refine ⟨?_, ?_, ?_, ?_, ?_, ?_, ?_, ?_, ?_, ?_⟩
  · intro i q l hi
    rw [hnext]
    exact h.next i q l (hline hi)
  · intro i j p q l l' hij hi hj
    exact h.ascending i j p q l l' hij (hline hi) (hline hj)
  · intro i q l hi hl
    rw [← or_assoc, howed q l, or_assoc]
    rcases h.settled i q l (hline hi) hl with ha | hp | ⟨k, a, hk, hown⟩
    · exact .inl ha
    · exact .inr (.inl hp)
    · exact .inr (.inr ⟨k, a, getElem?_grow hk, hown⟩)
  · intro q l hq
    obtain ⟨⟨i, hi⟩, hnone⟩ := h.waiting q l ((howed q l).mp hq)
    exact ⟨⟨i, getElem?_grow hi⟩, fun k a hk => hnone k a (hanswer hk)⟩
  · intro j q b x hj hx
    rcases getElem?_concat_cases hj with ⟨hj, -⟩ | ⟨hjlen, rfl⟩
    · obtain ⟨⟨i, hij, l, hi, hown⟩, hfirst⟩ := h.framed j q b x hj hx
      exact ⟨⟨i, hij, l, getElem?_grow hi, hown⟩, fun k a hk => hfirst k a (hanswer hk)⟩
    · obtain ⟨line, hactive, hown⟩ := hworking q b hx
      obtain ⟨⟨i, hi⟩, hnone⟩ := h.waiting q line (.inl hactive)
      refine ⟨⟨i, hjlen ▸ lt_length hi, line, getElem?_grow hi, .inl hown⟩, fun k a hk => ?_⟩
      exact absurd (hanswer hk) (hnone k a)
  · intro i j p q l l' hij hi hj hl k a hjk hk
    obtain ⟨m, a', hjm, hmk, hm, haside⟩ := h.asides i j p q l l' hij (hline hi) (hline hj) hl k a hjk (hanswer hk)
    exact ⟨m, a', hjm, hmk, getElem?_grow hm, haside⟩
  · intro i j p q l l' hij hi hj hl hp
    rcases hcase with ⟨ha, hpend⟩ | ⟨hnone, ha, -⟩
    · rw [ha] at hp
      rw [hpend]
      rcases h.beside i j p q l l' hij (hline hi) (hline hj) hl hp with hq | ⟨m, a', hjm, hm, haside⟩
      · exact .inl hq
      · exact .inr ⟨m, a', hjm, getElem?_grow hm, haside⟩
    · -- Nothing was consumed after the line that starts.
      rw [ha] at hp
      have hend := h.latest p l hp
      have hbound := h.next j q l' (hline hj)
      have hlater := h.ascending i j p q l l' hij (hline hi) (hline hj)
      omega
  · intro p q l l' hp hq
    rcases hcase with ⟨ha, hpend⟩ | ⟨-, -, hpend⟩
    · rw [ha] at hp
      rw [hpend] at hq
      exact h.apart p q l l' hp hq
    · rw [hpend] at hq
      cases hq
  · intro q l hq
    rw [hnext]
    rcases hcase with ⟨-, hpend⟩ | ⟨-, -, hpend⟩
    · rw [hpend] at hq
      exact h.latest q l hq
    · rw [hpend] at hq
      cases hq
  · intro i x hx hlost
    rcases getElem?_concat_cases hx with ⟨hx, -⟩ | ⟨hlen, rfl⟩
    · obtain ⟨-, hhalted'⟩ := h.last i x hx hlost
      rw [hhalted] at hhalted'
      cases hhalted'
    · rw [List.length_append, List.length_singleton, hlen]
      exact ⟨rfl, hloses hlost⟩

theorem Ledger.moves (h : Ledger Asks Own Aside s log) (hmove : Moves Asks Own Aside s e s') :
    Ledger Asks Own Aside s' (log ++ [e]) := by
  cases hmove with
  | skip hasks => exact h.consumed (.inl ⟨rfl, hasks⟩)
  | consume => exact h.consumed (.inr rfl)
  | answer hown => exact h.wrote rfl (.inl hown) rfl rfl (.inr ⟨rfl, rfl, nofun⟩)
  | aside haside => exact h.wrote rfl (.inr haside) rfl rfl (.inr ⟨rfl, rfl, fun _ _ => haside⟩)
  | start => exact h.quiet rfl nofun nofun nofun rfl (.inr ⟨rfl, rfl, rfl⟩) nofun
  | @working n q line notice hown =>
    refine h.quiet rfl nofun nofun (fun p b hp => ?_) rfl (.inl ⟨rfl, rfl⟩) nofun
    obtain ⟨rfl, rfl⟩ := Prod.mk.inj (Option.some.inj hp)
    exact ⟨line, rfl, hown⟩
  | finish hown => exact h.wrote rfl (.inl hown) rfl rfl (.inl ⟨rfl, rfl, rfl⟩)
  | lose hloses =>
    refine h.quiet rfl ?_ ?_ ?_ rfl (.inl ⟨rfl, rfl⟩) (fun _ => rfl)
    · rintro q line rfl
      cases hloses
    · rintro q answer rfl
      cases hloses
    · intro q b hq
      cases e with
      | lost => cases hq
      | broken => cases hq
      | _ => cases hloses

theorem Talk.ledger (h : Talk Asks Own Aside s log) : Ledger Asks Own Aside s log := by
  induction h with
  | nil => exact .nil
  | concat _ hmove ih => exact ih.moves hmove

theorem Steps.single (h : Moves Asks Own Aside s e s') : Steps Asks Own Aside s [e] s' := .cons h .nil

theorem Talk.append {es : List (Entry α β)} (h : Talk Asks Own Aside s log) (hsteps : Steps Asks Own Aside s es s') :
    Talk Asks Own Aside s' (log ++ es) := by
  induction hsteps generalizing log with
  | nil =>
    rw [List.append_nil]
    exact h
  | cons hmove _ ih =>
    rw [List.append_cons]
    exact ih (h.concat hmove)

end

end Emucap.Lib.Dialogue
