import Emucap.Live.ContinuityCalls

/-!
# The exclusive control lease

At most one live process holds the lease of a launch. A process that was ever recorded as holder has ended, or is the
holder still, or its record was removed with the launch (`Kept`).
-/

namespace Emucap.Live

open Emucap.Lib

/-! ## Former holders -/

/-- The process has ended, still holds the lease, or held it for a launch that is gone. -/
def Kept (s : RuntimeWorld) (port : ℕ) (launchId : String) (p : ProcessIdentity) : Prop :=
  p ∈ s.exited ∨ s.holder port launchId = some p ∨
    ((launchId, port) ∈ s.launched ∧ ¬ s.IsCurrent port launchId ∧ s.lease port launchId = none)

section moves

variable {d : LinkRequest} {s s' : RuntimeWorld} {port : ℕ} {launchId : String} {p : ProcessIdentity}

theorem WorldMove.exited_subset (h : WorldMove d s s') : s.exited ⊆ s'.exited := by
  cases h with
  | same => exact List.Subset.refl _
  | write _ => exact List.Subset.refl _
  | commit _ _ => exact List.Subset.refl _
  | exit _ => exact List.subset_cons_self _ _

theorem holder_eq_some {s : RuntimeWorld} (h : s.holder port launchId = some p) :
    ∃ l, s.lease port launchId = some l ∧ l.holder = p := Option.map_eq_some_iff.mp h

theorem LeaseMove.kept {l l' : Option LeaseRecord} (h : LeaseMove d s port launchId l l')
    (hp : l.map LeaseRecord.holder = some p) : p ∈ s.exited ∨ l'.map LeaseRecord.holder = some p := by
  cases h with
  | same => exact .inr hp
  | refresh hholder _ =>
    refine .inr ?_
    rw [← hp]
    exact congrArg some hholder
  | claim _ _ hexited =>
    obtain ⟨l₀, hl₀, rfl⟩ := Option.map_eq_some_iff.mp hp
    exact .inl (hexited l₀ hl₀)

theorem Kept.write {new : LinkRecord} {port' : ℕ} {launchId' : String} (h : Kept s port launchId p)
    (hmove : RecordMove d s port' launchId' new) : Kept (s.setLink port' launchId' (some new)) port launchId p := by
  unfold Kept RuntimeWorld.holder RuntimeWorld.lease at *
  rw [RuntimeWorld.link_setLink]
  split_ifs with hpl
  · obtain ⟨rfl, rfl⟩ := hpl
    rcases h with hexited | hholder | ⟨hlaunched, hgone, hnone⟩
    · exact .inl hexited
    · rcases hmove.lease.kept hholder with hexited | hkept
      · exact .inl hexited
      · exact .inr (.inl hkept)
    · refine .inr (.inr ⟨hlaunched, hgone, ?_⟩)
      have hlease : LeaseMove d s port launchId none new.lease := hnone ▸ hmove.lease
      generalize hnew : new.lease = l at hlease
      cases hlease with
      | same => exact hnew
      | claim hcurrent _ _ => exact absurd hcurrent hgone
  · exact h

theorem not_isCurrent_replace {port' : ℕ} {manifest : CurrentManifest} {removed : String → Bool}
    (hfresh : manifest.launchId ∉ s.launched.map Prod.fst) (hlaunched : (launchId, port) ∈ s.launched)
    (h : port = port' ∨ ¬ s.IsCurrent port launchId) :
    ¬ (s.replace port' manifest removed).IsCurrent port launchId := by
  have hother : launchId ≠ manifest.launchId := by
    rintro rfl
    exact hfresh (List.mem_map.mpr ⟨_, hlaunched, rfl⟩)
  rintro ⟨c, hc, hid⟩
  simp only [RuntimeWorld.replace] at hc
  split_ifs at hc with hport
  · obtain rfl := Option.some.inj hc
    exact hother hid.symm
  · rcases h with heq | hcurrent
    · exact hport heq
    · exact hcurrent ⟨c, hc, hid⟩

theorem Kept.commit {prepared : PreparedGeneration} {manifest : CurrentManifest} {removed : String → Bool}
    (hinv : LinkInv s) (hfresh : manifest.launchId ∉ s.launched.map Prod.fst) (h : Kept s port launchId p) :
    Kept (s.replace prepared.port manifest removed) port launchId p := by
  rcases h with hexited | hholder | ⟨hlaunched, hcurrent, hnone⟩
  · exact .inl hexited
  · obtain ⟨l, hl, rfl⟩ := holder_eq_some hholder
    have hlaunched := hinv.held hl
    by_cases hremoved : port = prepared.port ∧ removed launchId = true ∧ launchId ≠ manifest.launchId
    · refine .inr (.inr ⟨List.mem_cons_of_mem _ hlaunched, not_isCurrent_replace hfresh hlaunched (.inl hremoved.1), ?_⟩)
      simp only [RuntimeWorld.lease, RuntimeWorld.replace, if_pos hremoved, Option.bind_none]
    · refine .inr (.inl ?_)
      simp only [RuntimeWorld.holder, RuntimeWorld.lease, RuntimeWorld.replace, if_neg hremoved]
      exact hholder
  · refine .inr (.inr ⟨List.mem_cons_of_mem _ hlaunched, not_isCurrent_replace hfresh hlaunched (.inr hcurrent), ?_⟩)
    simp only [RuntimeWorld.lease, RuntimeWorld.replace]
    split_ifs
    · rfl
    · exact hnone

theorem Kept.move (hinv : LinkInv s) (hmove : WorldMove d s s') (h : Kept s port launchId p) :
    Kept s' port launchId p := by
  cases hmove with
  | same => exact h
  | write hrecord => exact h.write hrecord
  | commit _ hfresh => exact h.commit hinv hfresh
  | exit _ =>
    rcases h with hexited | hheld
    · exact .inl (List.mem_cons_of_mem _ hexited)
    · exact .inr hheld

theorem WorldMove.holder_change {q : ProcessIdentity} (hmove : WorldMove d s s')
    (hp : s.holder port launchId = some p) (hq : s'.holder port launchId = some q) (hne : q ≠ p) :
    p ∈ s.exited := by
  cases hmove with
  | same => exact absurd (Option.some.inj (hq.symm.trans hp)) hne
  | @write port' launchId' new hrecord =>
    unfold RuntimeWorld.holder RuntimeWorld.lease at hq
    rw [RuntimeWorld.link_setLink] at hq
    split_ifs at hq with hpl
    · obtain ⟨rfl, rfl⟩ := hpl
      rcases hrecord.lease.kept hp with hexited | hkept
      · exact hexited
      · exact absurd (Option.some.inj (hq.symm.trans hkept)) hne
    · exact absurd (Option.some.inj (hq.symm.trans hp)) hne
  | commit _ _ =>
    simp only [RuntimeWorld.holder, RuntimeWorld.lease, RuntimeWorld.replace] at hq
    split_ifs at hq
    · cases hq
    · exact absurd (Option.some.inj (hq.symm.trans hp)) hne
  | exit _ => exact absurd (Option.some.inj (hq.symm.trans hp)) hne

end moves

/-! ## Whole runs -/

abbrev LinkSystem := System LinkOp LinkOp.Reply LinkReturn RuntimeWorld LinkOracle LinkRequest

/-- The history of a run: every holder of a lease is kept, and of two holders of one lease at least one has
ended. -/
structure LeaseHistory (bytes : LinkRecord → Option ℕ) (s : LinkSystem) : Prop where
  good : (linkRule bytes).Good RuntimeWorld.empty s
  kept : ∀ e ∈ s.log, ∀ port launchId p, e.after.holder port launchId = some p → Kept s.store port launchId p
  exclusive : ∀ e ∈ s.log, ∀ e' ∈ s.log, ∀ port launchId p q, e.after.holder port launchId = some p →
    e'.after.holder port launchId = some q → p ≠ q → p ∈ s.store.exited ∨ q ∈ s.store.exited
  launched : ∀ e ∈ s.log, e.after.launched ⊆ s.store.launched

theorem WorldMove.launched_subset {d : LinkRequest} {s s' : RuntimeWorld} (h : WorldMove d s s') :
    s.launched ⊆ s'.launched := by
  cases h with
  | same => exact List.Subset.refl _
  | write _ => exact List.Subset.refl _
  | commit _ _ => exact List.subset_cons_self _ _
  | exit _ => exact List.Subset.refl _

section runs

variable {bytes : LinkRecord → Option ℕ}

theorem LeaseHistory.exec {s : LinkSystem} (h : LeaseHistory bytes s) {i : ℕ} {d : LinkRequest} {o : LinkOp}
    {k : o.Reply → LinkProg LinkReturn} (w : LinkOracle) (hi : s.threads[i]? = some (d, some (.call o k))) :
    LeaseHistory bytes ⟨(linkExec bytes w s.store o).2, s.threads.set i (d, (linkExec bytes w s.store o).1.map k),
      ⟨i, d, w, s.store, (linkExec bytes w s.store o).2⟩ :: s.log⟩ := by
  have hgood := h.good.exec w hi
  have hmove : WorldMove d s.store (linkExec bytes w s.store o).2 := (hgood.log _ List.mem_cons_self).2.2
  have hkept : ∀ e ∈ s.log, ∀ port launchId p, e.after.holder port launchId = some p →
      Kept (linkExec bytes w s.store o).2 port launchId p :=
    fun e he port launchId p hp => (h.kept e he port launchId p hp).move h.good.inv hmove
  -- The holder now against a former one.
  have hnow : ∀ e ∈ s.log, ∀ port launchId p q, e.after.holder port launchId = some p →
      (linkExec bytes w s.store o).2.holder port launchId = some q → p ≠ q →
      p ∈ (linkExec bytes w s.store o).2.exited := by
    intro e he port launchId p q hp hq hne
    rcases hkept e he port launchId p hp with hexited | hheld | ⟨-, -, hnone⟩
    · exact hexited
    · exact absurd (Option.some.inj (hheld.symm.trans hq)) hne
    · rw [RuntimeWorld.holder, hnone] at hq
      cases hq
  refine ⟨hgood, ?_, ?_, ?_⟩
  · intro e he port launchId p hp
    rcases List.mem_cons.mp he with rfl | he
    · exact .inr (.inl hp)
    · exact hkept e he port launchId p hp
  · intro e he e' he' port launchId p q hp hq hne
    rcases List.mem_cons.mp he with rfl | he <;> rcases List.mem_cons.mp he' with rfl | he'
    · exact absurd (Option.some.inj (hp.symm.trans hq)) hne
    · exact .inr (hnow e' he' port launchId q p hq hp hne.symm)
    · exact .inl (hnow e he port launchId p q hp hq hne)
    · rcases h.exclusive e he e' he' port launchId p q hp hq hne with hexited | hexited
      · exact .inl (hmove.exited_subset hexited)
      · exact .inr (hmove.exited_subset hexited)
  · intro e he
    rcases List.mem_cons.mp he with rfl | he
    · exact List.Subset.refl _
    · exact List.Subset.trans (h.launched e he) hmove.launched_subset

theorem LeaseHistory.step {s : LinkSystem} (h : LeaseHistory bytes s) (a : Action LinkOracle LinkRequest) :
    LeaseHistory bytes ((linkMachine bytes).step s a) := by
  rcases Machine.step_cases (m := linkMachine bytes) (s := s) a with
    ⟨d, rfl, hs⟩ | ⟨i, w, d, o, k, rfl, hi, hs⟩ | ⟨-, hs⟩
  · rw [hs]
    exact ⟨h.good.spawn d, h.kept, h.exclusive, h.launched⟩
  · rw [hs]
    exact h.exec w hi
  · rw [hs]
    exact h

theorem leaseHistory_run (bytes : LinkRecord → Option ℕ) (actions : List (Action LinkOracle LinkRequest)) :
    LeaseHistory bytes ((linkMachine bytes).run (System.init RuntimeWorld.empty) actions) := by
  refine Machine.run_induction ⟨(linkRule bytes).sound LinkInv.empty [], ?_, ?_, ?_⟩
    (fun _ a h => h.step a) actions
  · exact fun _ he => (nomatch he)
  · exact fun _ he => (nomatch he)
  · exact fun _ he => (nomatch he)

end runs

/-- The call reports the lease of a launch as held by a process. -/
inductive ReportsHeld : LinkRequest → LinkReturn → ProcessIdentity → String → Prop
  | claim {port : ℕ} {launchId : String} {holder : ProcessIdentity} {controlKey token : Option String}
      {r : LinkRecord} {view : LeaseView} : view.state = .held →
      ReportsHeld (.claim port launchId holder controlKey token) (.claimed (.ok (r, view))) holder launchId
  | acquire {link link' : ObservedLink} {expected : Option String} {view : LeaseView} {c : CurrentManifest} :
      view.state = .held → link'.current = some c →
      ReportsHeld (.acquire link expected) (.lease link' (.ok view)) link.holder c.launchId

inductive ClaimFails : LinkRequest → LinkReturn → Prop
  | claim {port : ℕ} {launchId : String} {holder : ProcessIdentity} {controlKey token : Option String}
      {e : IoError} : ClaimFails (.claim port launchId holder controlKey token) (.claimed (.error e))
  | acquire {link link' : ObservedLink} {expected : Option String} {e : IoError} :
      ClaimFails (.acquire link expected) (.lease link' (.error e))

theorem reportsHeld_holder {bytes : LinkRecord → Option ℕ} {s : LinkSystem} (h : LeaseHistory bytes s) {i : ℕ}
    {d : LinkRequest} {r : LinkReturn} {p : ProcessIdentity} {launchId : String} (hreturned : s.returned i d r)
    (hheld : ReportsHeld d r p launchId) : ∃ e ∈ s.log, ∃ port, e.after.holder port launchId = some p := by
  have hseen : ∀ {g : LinkPhase} {port : ℕ} {launchId : String} {r : LinkRecord} {l : LeaseRecord},
      LinkKnow g (own i s.log) → (port, launchId, some r) ∈ g.seen → r.lease = some l →
      ∃ e ∈ s.log, ∃ port, e.after.holder port launchId = some l.holder := by
    intro g port launchId r l hknow hr hl
    obtain ⟨e, he, hlink⟩ := hknow.seen port launchId _ hr
    refine ⟨e, (List.mem_filter.mp he).1, port, ?_⟩
    rw [RuntimeWorld.holder, RuntimeWorld.lease, hlink, Option.bind_some, hl, Option.map_some]
  obtain ⟨g, hknow, hpost⟩ := h.good.know i d _ hreturned
  cases hheld with
  | claim hview =>
    obtain ⟨hr, l, hl, rfl⟩ := hpost hview
    exact hseen hknow hr hl
  | acquire hview hcurrent =>
    obtain ⟨hsame, c', r', l, hc', hr, hl, hholder⟩ := hpost hview
    obtain rfl := Option.some.inj (hcurrent.symm.trans hc')
    rw [← hsame, ← hholder]
    exact hseen hknow hr hl

/-- Exclusive control. In every run of claims, observations, temporal operations, exits and generation
replacements:

* the holder of a lease changes from one process to another only after the former one has ended;
* of any two processes that were ever recorded as holder of one launch's lease, at least one has ended;
* a claim that fails leaves every stored record as it is, unless its replacement was carried out and reported
  as failed;
* of any two processes that were told that they hold the lease of one launch, at least one has ended. -/
theorem lease_exclusive (bytes : LinkRecord → Option ℕ) (actions : List (Action LinkOracle LinkRequest)) :
    let s := (linkMachine bytes).run (System.init RuntimeWorld.empty) actions
    (∀ e ∈ s.log, ∀ port launchId p q, e.before.holder port launchId = some p →
      e.after.holder port launchId = some q → q ≠ p → p ∈ e.before.exited) ∧
    (∀ e ∈ s.log, ∀ e' ∈ s.log, ∀ port launchId p q, e.after.holder port launchId = some p →
      e'.after.holder port launchId = some q → p ≠ q → p ∈ s.store.exited ∨ q ∈ s.store.exited) ∧
    (∀ i d r, s.returned i d r → ClaimFails d r → ∀ e ∈ s.log, e.thread = i → e.oracle.locked.atomic →
      e.after.link = e.before.link) ∧
    (∀ i j d d' r r' p q launchId, s.returned i d r → s.returned j d' r' → ReportsHeld d r p launchId →
      ReportsHeld d' r' q launchId → p ≠ q → p ∈ s.store.exited ∨ q ∈ s.store.exited) := by
  intro s
  have h : LeaseHistory bytes s := leaseHistory_run bytes actions
  refine ⟨?_, h.exclusive, ?_, ?_⟩
  · intro e he port launchId p q hp hq hne
    exact WorldMove.holder_change (h.good.log e he).2.2 hp hq hne
  · intro i d r hreturned hfails e he hthread hatomic
    obtain ⟨g, hknow, hpost⟩ := h.good.know i d _ hreturned
    have hown : e ∈ own i s.log := List.mem_filter.mpr ⟨he, by simpa using hthread⟩
    cases hfails with
    | claim => exact hknow.wrote hpost e hown hatomic
    | acquire => exact hknow.wrote hpost e hown hatomic
  · intro i j d d' r r' p q launchId hi hj hp hq hne
    obtain ⟨e, he, port, hholder⟩ := reportsHeld_holder h hi hp
    obtain ⟨e', he', port', hholder'⟩ := reportsHeld_holder h hj hq
    -- A launch became current at one port, so both saw the same record.
    have hlaunched : ∀ {e : LinkEvent} {port : ℕ} {p : ProcessIdentity}, e ∈ s.log →
        e.after.holder port launchId = some p → (launchId, port) ∈ s.store.launched := by
      intro e port p he hp
      obtain ⟨l, hl, -⟩ := holder_eq_some hp
      exact h.launched e he ((h.good.log e he).2.1.held hl)
    obtain rfl := h.good.inv.once (hlaunched he hholder) (hlaunched he' hholder')
    exact h.exclusive e he e' he' port launchId p q hholder hholder' hne

end Emucap.Live
