import Emucap.Track.Lifecycle

/-!
# The attribution of findings

A finding of the tracking server names the active run, and a ROM that is the argument of the call or, without one,
that of the active run. The two agree on every finding as long as no call names a ROM that is not the one of the run
that is active (`Fits`).
-/

namespace Emucap.Track

open Emucap.Lib

/-- A finding that names a run carries the ROM of that run. -/
def Attributed (w : World) : Prop :=
  ∀ finding ∈ w.ledger.findings.rows, ∀ runId, finding.runId = some runId →
    (∃ run ∈ w.ledger.runs.rows, run.id = runId) ∧
      ∀ run ∈ w.ledger.runs.rows, run.id = runId → run.romSha1 = finding.romSha1

/-- A finding is recorded without a ROM, for the ROM of the active run, or while no run is active. -/
def Fits : Call → World → Prop
  | .logFinding (some romSha1) _ _ _, w => ∀ a, w.active = some a → a.romSha1 = romSha1
  | _, _ => True

def AllFit (env : Env) (w : World) (calls : List (String × Call)) : Prop :=
  ∀ before c later, calls = before ++ c :: later → Fits c.2 (serveAll env before w)

structure BeginsAttributed (env : Env) (w : World) : Prop extends Begins env w where
  unique : ∀ run ∈ w.ledger.runs.rows, ∀ run' ∈ w.ledger.runs.rows, run.id = run'.id → run.key = run'.key
  attributed : Attributed w

section attribution

variable {env : Env} {now : String} {call : Call} {w w' : World} {failed : Bool}

theorem Effect.findings (h : Effect env now call w failed w') :
    w'.ledger.findings = w.ledger.findings ∨
      ∃ arg claim evidenceRefs promoted finding, call = .logFinding arg claim evidenceRefs promoted ∧
        arg.or (w.active.map ActiveRun.romSha1) = some finding.romSha1 ∧
        finding.runId = w.active.map ActiveRun.runId ∧ w'.ledger.runs = w.ledger.runs ∧
        w'.ledger.findings = w.ledger.findings.put finding := by
  cases h with
  | refused quiet => exact .inl quiet.findings
  | appended active rewrote =>
    obtain ⟨_, _, _, _, hwrote⟩ := rewrote
    exact .inl hwrote.findings
  | reproduced tool active rewrote =>
    obtain ⟨_, _, _, _, hwrote⟩ := rewrote
    exact .inl hwrote.findings
  | found tool rom rest findings => exact .inr ⟨_, _, _, _, _, tool, rom, rfl, rest.1, findings⟩
  | finished tool target closes rewrote active =>
    subst active
    obtain ⟨_, _, _, _, hwrote⟩ := rewrote
    exact .inl hwrote.findings
  | rebound stored running tool closed retired bound =>
    subst bound
    exact .inl closed.findings
  | started tool gaveWay fresh created bound =>
    subst bound
    exact .inl (created.findings.trans gaveWay.closed.findings)
  | notStarted tool gaveWay quiet => exact .inl (quiet.findings.trans gaveWay.closed.findings)

theorem Attributed.keep {codec : Codec} (h : Attributed w) (hkeys : KeysFrom w w') (hgrown : AllGrown codec w w')
    (hfindings : w'.ledger.findings = w.ledger.findings) : Attributed w' := by
  intro finding hfinding runId hrunId
  rw [hfindings] at hfinding
  obtain ⟨⟨run, hrun, hid⟩, hrom⟩ := h finding hfinding runId hrunId
  refine ⟨?_, fun run' hrun' hid' => ?_⟩
  · obtain ⟨run', hfind', hgrown'⟩ := hgrown run.key run (Table.find_eq_some.mpr ⟨hrun, rfl⟩)
    have hsame : run'.id = run.id := congrArg Prod.snd hgrown'.key
    exact ⟨run', (Table.find_eq_some.mp hfind').1, hsame.trans hid⟩
  · obtain ⟨old, hold, hkey⟩ := hkeys run' hrun'
    have hsame : old.id = run'.id := congrArg Prod.snd hkey
    have hsameRom : old.romSha1 = run'.romSha1 := congrArg Prod.fst hkey
    rw [← hsameRom]
    exact hrom old hold (hsame.trans hid')

theorem Attributed.created {run : Run} {U : String → Prop} (h : Attributed w) (hids : Ids env U w)
    (hcreated : Created env run w w') : Attributed w' := by
  intro finding hfinding runId hrunId
  rw [hcreated.findings] at hfinding
  obtain ⟨⟨old, hold, hid⟩, hrom⟩ := h finding hfinding runId hrunId
  obtain ⟨n, hn, -, hnew⟩ := hcreated.minted
  have hother : run.id ≠ runId := by
    rw [hnew, ← hid]
    exact (hids.fresh old hold n hn).symm
  have hrows (run' : Run) : run' ∈ w'.ledger.runs.rows ↔ run' = run ∨ run' ∈ w.ledger.runs.rows ∧ run'.key ≠ run.key := by
    rw [hcreated.runs]
    exact Table.mem_rows_put
  refine ⟨⟨old, (hrows old).mpr (.inr ⟨hold, fun hkey => ?_⟩), hid⟩, fun run' hrun' hid' => ?_⟩
  · have hsame : old.id = run.id := congrArg Prod.snd hkey
    exact hother (hsame.symm.trans hid)
  · rcases (hrows run').mp hrun' with rfl | ⟨hmem, -⟩
    · exact absurd hid' hother
    · exact hrom run' hmem hid'

theorem Attributed.put {finding : Finding} {arg : Option String} {claim : String} {evidenceRefs : List String}
    {promoted : Bool} (h : Attributed w) (hids : Ids env (fun _ => True) w) (hbound : Bound w)
    (hfits : Fits (.logFinding arg claim evidenceRefs promoted) w)
    (hrom : arg.or (w.active.map ActiveRun.romSha1) = some finding.romSha1)
    (hrunId : finding.runId = w.active.map ActiveRun.runId) (hruns : w'.ledger.runs = w.ledger.runs)
    (hfindings : w'.ledger.findings = w.ledger.findings.put finding) : Attributed w' := by
  intro f hf runId hid
  rw [hruns]
  rw [hfindings, Table.mem_rows_put] at hf
  rcases hf with rfl | ⟨hold, -⟩
  · obtain ⟨a, hactive, rfl⟩ := Option.map_eq_some_iff.mp (hrunId.symm.trans hid)
    obtain ⟨run, hfind, -⟩ := hbound.active a hactive
    have hrun := Table.find_eq_some.mp hfind
    have hrunRom : run.romSha1 = a.romSha1 := congrArg Prod.fst hrun.2
    have hrunId' : run.id = a.runId := congrArg Prod.snd hrun.2
    have hfindingRom : f.romSha1 = a.romSha1 := by
      rw [hactive] at hrom
      cases arg with
      | none => exact (Option.some.inj hrom).symm
      | some rom => exact (Option.some.inj hrom).symm.trans (hfits a hactive).symm
    refine ⟨⟨run, hrun.1, hrunId'⟩, fun run' hrun' hid' => ?_⟩
    have hkey := hids.unique run' hrun' run hrun.1 (hid'.trans hrunId'.symm) (.inl trivial)
    have hsameRom : run'.romSha1 = run.romSha1 := congrArg Prod.fst hkey
    rw [hsameRom, hrunRom, hfindingRom]
  · exact h f hold runId hid

theorem Effect.attributed (h : Effect env now call w failed w') (hids : Ids env (fun _ => True) w) (hbound : Bound w)
    (hfits : Fits call w) (hattributed : Attributed w) : Attributed w' := by
  rcases h.findings with hsame | ⟨arg, claim, evidenceRefs, promoted, finding, rfl, hrom, hrunId, hruns, hfindings⟩
  · rcases h.keysFrom_or_created with ⟨hkeys, -, -⟩ | ⟨w₁, w₂, _, _, run, hway, -, hcreated, rfl⟩
    · exact hattributed.keep hkeys (h.allGrown hids hbound) hsame
    · have h₁ : Attributed w₁ :=
        hattributed.keep hway.closed.keysFrom hway.closed.allGrown hway.closed.findings
      have h₂ : Attributed w₂ := h₁.created (hway.ids hids) hcreated
      exact h₂
  · exact hattributed.put hids hbound hfits hrom hrunId hruns hfindings

/-- Over every sequence of calls, with any failures, in which each finding is recorded for the ROM of the active run,
or while none is active, every stored finding that names a run carries the ROM of that run. -/
theorem attributed_serveAll (hgen : Function.Injective env.gen) (hbegins : BeginsAttributed env w)
    {calls : List (String × Call)} (hfit : AllFit env w calls) : Attributed (serveAll env calls w) := by
  have hids : Ids env (fun _ => True) w :=
    ⟨fun run hrun run' hrun' hid _ => hbegins.unique run hrun run' hrun' hid, hbegins.ids.minted, hbegins.fresh⟩
  have hall : ∀ (calls : List (String × Call)) (w : World), Ids env (fun _ => True) w → Bound w → Attributed w →
      AllFit env w calls → Attributed (serveAll env calls w) := by
    intro calls
    induction calls with
    | nil => exact fun w _ _ h _ => h
    | cons c calls ih =>
      intro w hids hbound hattributed hfit
      obtain ⟨failed, heffect⟩ := exists_effect env c.1 c.2 w
      refine ih _ (heffect.ids hgen hids) (heffect.bound hids hbound)
        (heffect.attributed hids hbound (hfit [] c calls rfl) hattributed) fun before c' later hcalls => ?_
      exact hfit (c :: before) c' later (by rw [hcalls]; rfl)
  exact hall calls w hids hbegins.bound hbegins.attributed hfit

end attribution

/-- A run, and a finding recorded without a ROM. -/
theorem attributed_serveAll_plain :
    Attributed (serveAll plainEnv
      [("t0", .runStart "romA" none none none []), ("t1", .logFinding none "stable" [] true)] emptyWorld) := by
  refine attributed_serveAll plainEnv_injective ⟨⟨rfl, rfl, ?_⟩, ?_, ?_⟩ ?_
  · simp [emptyWorld, Table.empty]
  · simp [emptyWorld, Table.empty]
  · simp [Attributed, emptyWorld, Table.empty]
  · intro before c later hcalls
    rcases before with _ | ⟨_, _ | ⟨_, before⟩⟩
    · rw [← (List.cons.inj hcalls).1]
      trivial
    · rw [← (List.cons.inj (List.cons.inj hcalls).2).1]
      trivial
    · simp at hcalls

/-- A finding for another ROM than that of the active run is linked to that run. -/
theorem finding_of_other_rom :
    let w := serveAll plainEnv
      [("t0", .runStart "romA" none none none []), ("t1", .logFinding (some "romB") "stable" [] true)] emptyWorld
    w.ledger.runs.rows.map Run.key = [("romA", "a")] ∧
      w.ledger.findings.rows.map (fun finding => (finding.romSha1, finding.runId)) = [("romB", some "a")] := by
  decide +kernel

end Emucap.Track
