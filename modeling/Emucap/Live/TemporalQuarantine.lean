import Emucap.Live.ControlLease

/-!
# The temporal quarantine marker

Over any run, the marker of a launch moves only as `MarkerMove` says, or goes with the directory of a replaced
generation. A bound link admits a mutation only past this marker.
-/

namespace Emucap.Live

open Emucap.Lib

/-! ## Single operations -/

/-- The record of a launch was removed with its generation, and no marker can come back. -/
structure Gone (s : RuntimeWorld) (port : ℕ) (launchId : String) : Prop where
  launched : (launchId, port) ∈ s.launched
  replaced : ¬ s.IsCurrent port launchId
  lease : s.lease port launchId = none
  marker : s.marker port launchId = none

def Quarantined (s : RuntimeWorld) (port : ℕ) (launchId : String) (m : TemporalOperation) : Prop :=
  s.marker port launchId = some m ∨ Gone s port launchId

/-- Markers are of launches that became current at that port. -/
def Marked (s : RuntimeWorld) : Prop :=
  ∀ port launchId m, s.marker port launchId = some m → (launchId, port) ∈ s.launched

/-- Another generation becomes current at the port, and the directory of the launch's generation is removed. -/
structure Removes (d : LinkRequest) (s s' : RuntimeWorld) (port : ℕ) (launchId : String) : Prop where
  commit : ∃ prepared manifest removed, d = .commit prepared manifest ∧ prepared.port = port ∧
    manifest.launchId ∉ s.launched.map Prod.fst ∧ s' = s.replace port manifest removed
  removed : s'.link port launchId = none

section moves

variable {d : LinkRequest} {s s' : RuntimeWorld} {port : ℕ} {launchId : String} {m : TemporalOperation}

theorem marker_setLink {port' : ℕ} {launchId' : String} {cell : Option LinkRecord} :
    (s.setLink port' launchId' cell).marker port launchId =
      if port = port' ∧ launchId = launchId' then cell.bind LinkRecord.temporalOperation
      else s.marker port launchId := by
  unfold RuntimeWorld.marker
  rw [RuntimeWorld.link_setLink]
  split_ifs
  · rfl
  · rfl

/-- What one operation can do to the marker of a launch. -/
theorem WorldMove.marker (h : WorldMove d s s') (port : ℕ) (launchId : String) :
    MarkerMove d launchId (s.lease port launchId) (s.marker port launchId) (s'.marker port launchId) ∨
      Removes d s s' port launchId := by
  cases h with
  | same => exact .inl (.same _)
  | write hrecord =>
    refine .inl ?_
    rw [marker_setLink]
    split_ifs with hpl
    · rw [hpl.1, hpl.2]
      exact hrecord.marker
    · exact .same _
  | @commit prepared manifest removed hd hfresh =>
    by_cases hremoved : port = prepared.port ∧ removed launchId = true ∧ launchId ≠ manifest.launchId
    · have hnone : (s.replace prepared.port manifest removed).link port launchId = none := if_pos hremoved
      obtain ⟨rfl, -, -⟩ := hremoved
      exact .inr ⟨⟨prepared, manifest, removed, hd, rfl, hfresh, rfl⟩, hnone⟩
    · refine .inl ?_
      have hkept : (s.replace prepared.port manifest removed).marker port launchId = s.marker port launchId := by
        simp only [RuntimeWorld.marker, RuntimeWorld.replace, if_neg hremoved]
      rw [hkept]
      exact .same _
  | exit _ => exact .inl (.same _)

theorem MarkerMove.held {l : Option LeaseRecord} {old new : Option TemporalOperation}
    (h : MarkerMove d launchId l old new) : new = old ∨ ∃ link, HeldBy link l := by
  cases h with
  | same => exact .inl rfl
  | begin _ _ hheld => exact .inr ⟨_, hheld⟩
  | unverify _ _ hheld => exact .inr ⟨_, hheld⟩
  | clear _ _ hheld => exact .inr ⟨_, hheld⟩

theorem Marked.move (hinv : LinkInv s) (hmarked : Marked s) (hmove : WorldMove d s s') : Marked s' := by
  intro port launchId m hm
  refine hmove.launched_subset ?_
  rcases hmove.marker port launchId with hmarker | ⟨-, hnone⟩
  · rcases hmarker.held with hsame | ⟨link, l, hl, -, -⟩
    · exact hmarked port launchId m (hsame.symm.trans hm)
    · exact hinv.held hl
  · rw [RuntimeWorld.marker, hnone] at hm
    cases hm

theorem MarkerMove.unverified {l : Option LeaseRecord} {new : Option TemporalOperation}
    (h : MarkerMove d launchId l (some m) new) (hm : m.state = .unverified) : new = some m := by
  cases h with
  | same => rfl
  | unverify _ _ _ => cases hm
  | clear _ _ _ => cases hm

theorem Gone.move (hmove : WorldMove d s s') (h : Gone s port launchId) : Gone s' port launchId := by
  cases hmove with
  | same => exact h
  | @write port' launchId' new hrecord =>
    refine ⟨h.launched, h.replaced, ?_, ?_⟩
    · unfold RuntimeWorld.lease
      rw [RuntimeWorld.link_setLink]
      split_ifs with hpl
      · obtain ⟨rfl, rfl⟩ := hpl
        have hlease : LeaseMove d s port launchId none new.lease := h.lease ▸ hrecord.lease
        generalize hnew : new.lease = l at hlease
        cases hlease with
        | same => exact hnew
        | claim hcurrent _ _ => exact absurd hcurrent h.replaced
      · exact h.lease
    · rw [marker_setLink]
      split_ifs with hpl
      · obtain ⟨rfl, rfl⟩ := hpl
        rcases hrecord.marker.held with hsame | ⟨link, l, hl, -, -⟩
        · exact hsame.trans h.marker
        · rw [h.lease] at hl
          cases hl
      · exact h.marker
  | commit _ hfresh =>
    refine ⟨List.mem_cons_of_mem _ h.launched, not_isCurrent_replace hfresh h.launched (.inr h.replaced), ?_, ?_⟩
    · simp only [RuntimeWorld.lease, RuntimeWorld.replace]
      split_ifs
      · rfl
      · exact h.lease
    · simp only [RuntimeWorld.marker, RuntimeWorld.replace]
      split_ifs
      · rfl
      · exact h.marker
  | exit _ => exact ⟨h.launched, h.replaced, h.lease, h.marker⟩

theorem Quarantined.move (hmarked : Marked s) (hmove : WorldMove d s s') (hm : m.state = .unverified)
    (h : Quarantined s port launchId m) : Quarantined s' port launchId m := by
  rcases h with hmarker | hgone
  · rcases hmove.marker port launchId with hmoved | ⟨⟨prepared, manifest, removed, -, -, hfresh, rfl⟩, hnone⟩
    · rw [hmarker] at hmoved
      exact .inl (hmoved.unverified hm)
    · have hlaunched := hmarked _ _ _ hmarker
      refine .inr ⟨hmove.launched_subset hlaunched, not_isCurrent_replace hfresh hlaunched (.inl rfl), ?_, ?_⟩
      · rw [RuntimeWorld.lease, hnone, Option.bind_none]
      · rw [RuntimeWorld.marker, hnone, Option.bind_none]
  · exact .inr (hgone.move hmove)

end moves

/-! ## Whole runs -/

/-- The history of a run: an unverified marker is quarantined from then on. -/
structure MarkerHistory (bytes : LinkRecord → Option ℕ) (s : LinkSystem) : Prop where
  good : (linkRule bytes).Good RuntimeWorld.empty s
  marked : Marked s.store
  quarantined : ∀ e ∈ s.log, ∀ port launchId m, e.after.marker port launchId = some m →
    m.state = .unverified → Quarantined s.store port launchId m

section runs

variable {bytes : LinkRecord → Option ℕ}

theorem MarkerHistory.exec {s : LinkSystem} (h : MarkerHistory bytes s) {i : ℕ} {d : LinkRequest} {o : LinkOp}
    {k : o.Reply → LinkProg LinkReturn} (w : LinkOracle) (hi : s.threads[i]? = some (d, some (.call o k))) :
    MarkerHistory bytes ⟨(linkExec bytes w s.store o).2, s.threads.set i (d, (linkExec bytes w s.store o).1.map k),
      ⟨i, d, w, s.store, (linkExec bytes w s.store o).2⟩ :: s.log⟩ := by
  have hgood := h.good.exec w hi
  have hmove : WorldMove d s.store (linkExec bytes w s.store o).2 := (hgood.log _ List.mem_cons_self).2.2
  refine ⟨hgood, h.marked.move h.good.inv hmove, ?_⟩
  intro e he port launchId m hm hstate
  rcases List.mem_cons.mp he with rfl | he
  · exact .inl hm
  · exact (h.quarantined e he port launchId m hm hstate).move h.marked hmove hstate

theorem MarkerHistory.step {s : LinkSystem} (h : MarkerHistory bytes s) (a : Action LinkOracle LinkRequest) :
    MarkerHistory bytes ((linkMachine bytes).step s a) := by
  rcases Machine.step_cases (m := linkMachine bytes) (s := s) a with
    ⟨d, rfl, hs⟩ | ⟨i, w, d, o, k, rfl, hi, hs⟩ | ⟨-, hs⟩
  · rw [hs]
    exact ⟨h.good.spawn d, h.marked, h.quarantined⟩
  · rw [hs]
    exact h.exec w hi
  · rw [hs]
    exact h

theorem markerHistory_run (bytes : LinkRecord → Option ℕ) (actions : List (Action LinkOracle LinkRequest)) :
    MarkerHistory bytes ((linkMachine bytes).run (System.init RuntimeWorld.empty) actions) := by
  refine Machine.run_induction ⟨(linkRule bytes).sound LinkInv.empty [], ?_, ?_⟩ (fun _ a h => h.step a) actions
  · exact fun _ _ _ hm => (nomatch hm)
  · exact fun _ he => (nomatch he)

/-- Durability of the quarantine. In every run of claims, observations, temporal operations, exits and
generation replacements:

* one operation changes the marker of a launch as `MarkerMove` says (a begin of the lease holder where there is
  none, a finish of the active operation by the controller that began it and holds the lease), or removes the
  whole record with its replaced generation;
* an unverified marker is never left again while the record is there;
* a link that is bound to a launch admits a mutation only after it found no marker in the launch's record, or
  the active marker of this very controller with the key the call carries and one of the admitted methods. -/
theorem marker_durable (bytes : LinkRecord → Option ℕ) (actions : List (Action LinkOracle LinkRequest)) :
    let s := (linkMachine bytes).run (System.init RuntimeWorld.empty) actions
    (∀ e ∈ s.log, ∀ port launchId,
      MarkerMove e.call launchId (e.before.lease port launchId) (e.before.marker port launchId)
        (e.after.marker port launchId) ∨ Removes e.call e.before e.after port launchId) ∧
    (∀ e ∈ s.log, ∀ port launchId m, e.after.marker port launchId = some m → m.state = .unverified →
      s.store.marker port launchId = some m ∨ Gone s.store port launchId) ∧
    (∀ i link method params link' port launchId,
      s.returned i (.ensure link method params) (.done link' (.ok ())) →
      link'.currentLocation = some (port, launchId) →
      ∃ e ∈ s.log, e.thread = i ∧
        link.MarkerAdmits launchId method params (e.after.marker port launchId)) := by
  intro s
  have h : MarkerHistory bytes s := markerHistory_run bytes actions
  refine ⟨?_, h.quarantined, ?_⟩
  · intro e he port launchId
    exact WorldMove.marker (h.good.log e he).2.2 port launchId
  · intro i link method params link' port launchId hreturned hlocation
    obtain ⟨g, hknow, hpost⟩ := h.good.know i _ _ hreturned
    rcases hpost with hnone | ⟨port', launchId', r, hlocation', hseen, hadmits⟩
    · rw [hnone] at hlocation
      cases hlocation
    · obtain ⟨rfl, rfl⟩ : port = port' ∧ launchId = launchId' := by
        simpa using hlocation.symm.trans hlocation'
      obtain ⟨e, he, hlink⟩ := hknow.seen port launchId r hseen
      obtain ⟨he, hthread⟩ := List.mem_filter.mp he
      refine ⟨e, he, by simpa using hthread, ?_⟩
      rw [RuntimeWorld.marker, hlink]
      exact hadmits

end runs

/-! ## A link that is bound to no launch -/

/-- Surroundings in which every operation goes through. -/
def calmLinkOracle : LinkOracle where
  read := .ok ()
  capture := .ok none
  sessions := .ok []
  generationExists := .ok false
  sameContent := false
  report _ := .alive
  now := 5
  inner := (.error .timeout, ⟨none, false, ⟨none, none, none, none, none, none, none, [], none, none⟩, []⟩)
  token := .ok ()
  currentLock := .ok ()
  locked := ⟨.ok (), .ok (), .stored⟩
  captureBlocker := .ok none
  removed _ := false

/-- The replacement takes place, and the sync of its directory fails. -/
def unsyncedLinkOracle : LinkOracle :=
  { calmLinkOracle with locked := ⟨.ok (), .ok (), .unconfirmed ⟨.other, "sync failed"⟩⟩ }

/-- A direct link to port 8765 whose adapter belongs to the launch. -/
def managedLink : ObservedLink :=
  .new ⟨some 8765, true,
    ⟨some "nes", some "mesen", none, none, none, some "game.nes", some "launch-a", [], none, none⟩, ["status"]⟩
    none ⟨41, some "boot:7"⟩

/-- A direct link to the same port whose adapter names another system and no launch. -/
def fallbackLink : ObservedLink :=
  .new ⟨some 8765, true,
    ⟨some "snes", some "mesen2-live", none, none, none, some "/fixture.sfc", none, [], none, none⟩, ["status"]⟩
    none ⟨42, some "boot:8"⟩

def quarantineKey : OperationKey := ⟨"launch-a", "owner-a", "operation-a"⟩

/-- A begin whose replacement cannot be synced, its unverified finish, and a mutation over the other link. -/
def quarantineRun : List (Action LinkOracle LinkRequest) :=
  .spawn (.commit ⟨8765, "launch-a", none⟩
    ⟨1, "launch-a", 8765, "mesen", "nes", "game.nes", ⟨40, some "boot:6"⟩⟩) ::
  .step 0 calmLinkOracle ::
  .spawn (.begin managedLink quarantineKey) ::
  List.replicate 7 (.step 1 calmLinkOracle) ++ .step 1 unsyncedLinkOracle ::
  .spawn (.finish managedLink quarantineKey false) ::
  List.replicate 3 (.step 2 calmLinkOracle) ++
  .spawn (.ensure fallbackLink "write_memory" (.obj [])) ::
  List.replicate 3 (.step 3 calmLinkOracle)

def LinkReturn.isDone (accepted : Bool) : LinkReturn → Bool
  | .done _ r => r.isOk == accepted
  | _ => false

/-- Neither is the marker set by successful begins only, nor does it stop every mutation: the begin reports an
error and the marker is there, and a fallback link at the launch's own port is admitted with it in place. -/
theorem unbound_link_admitted :
    let s := (linkMachine fun _ => some 1000).run (System.init RuntimeWorld.empty) quarantineRun
    (∃ link' e, s.returned 1 (.begin managedLink quarantineKey) (.done link' (.error e))) ∧
      (∃ e ∈ s.log, e.thread = 1 ∧ e.before.marker 8765 "launch-a" = none ∧
        (e.after.marker 8765 "launch-a").map TemporalOperation.state = some .active) ∧
      (∃ link', s.returned 3 (.ensure fallbackLink "write_memory" (.obj [])) (.done link' (.ok ()))) ∧
      s.store.current 8765 = some ⟨1, "launch-a", 8765, "mesen", "nes", "game.nes", ⟨40, some "boot:6"⟩⟩ ∧
      ∀ e ∈ s.log, e.thread = 3 → e.before.marker 8765 "launch-a" =
        some ⟨quarantineKey, ⟨41, some "boot:7"⟩, none, .unverified⟩ := by
  intro s
  have hcalls : s.threads.map Prod.fst = quarantineRun.filterMap Action.spawned :=
    Machine.calls_run (System.init RuntimeWorld.empty) quarantineRun
  refine ⟨?_, by decide +kernel, ?_, by decide +kernel, by decide +kernel⟩
  · obtain ⟨r, hr, hreturned⟩ := System.returned_of_result? (s := s) (i := 1)
      (d := .begin managedLink quarantineKey) (p := LinkReturn.isDone false) (by rw [hcalls]; rfl)
      (by decide +kernel)
    rcases r with _ | _ | ⟨link', e | ⟨⟩⟩ | _ | _ | _ | _
    all_goals first | exact ⟨link', e, hreturned⟩ | cases hr
  · obtain ⟨r, hr, hreturned⟩ := System.returned_of_result? (s := s) (i := 3)
      (d := .ensure fallbackLink "write_memory" (.obj [])) (p := LinkReturn.isDone true) (by rw [hcalls]; rfl)
      (by decide +kernel)
    rcases r with _ | _ | ⟨link', e | ⟨⟩⟩ | _ | _ | _ | _
    all_goals first | exact ⟨link', hreturned⟩ | cases hr

end Emucap.Live
