import Emucap.Track.Ops

/-!
# What the tracking operations do

One lemma for each operation: a store operation that fails leaves the ledger as it was, and one that
succeeds does one thing. The operations that rewrite a run all have the form of `rewriteRun`, so their
lemma is `wp_rewriteRun` at the change they make (`Step`).
-/

namespace Emucap.Track

open Emucap.Lib

structure Quiet (w w' : World) : Prop where
  runs : w'.ledger.runs = w.ledger.runs
  findings : w'.ledger.findings = w.ledger.findings
  active : w'.active = w.active
  started : w'.started = w.started
  abandoned : w'.abandoned = w.abandoned
  minted : w.minted ≤ w'.minted

theorem Quiet.refl (w : World) : Quiet w w := ⟨rfl, rfl, rfl, rfl, rfl, Nat.le_refl _⟩

theorem Quiet.trans {w₁ w₂ w₃ : World} (h : Quiet w₁ w₂) (h' : Quiet w₂ w₃) : Quiet w₁ w₃ :=
  ⟨h'.runs.trans h.runs, h'.findings.trans h.findings, h'.active.trans h.active, h'.started.trans h.started,
    h'.abandoned.trans h.abandoned, Nat.le_trans h.minted h'.minted⟩

structure Wrote (run : Run) (w w' : World) : Prop where
  runs : w'.ledger.runs = w.ledger.runs.put run
  findings : w'.ledger.findings = w.ledger.findings
  active : w'.active = w.active
  started : w'.started = w.started
  abandoned : w'.abandoned = w.abandoned
  minted : w.minted ≤ w'.minted

theorem Wrote.after {run : Run} {w₁ w₂ w₃ : World} (h : Quiet w₁ w₂) (h' : Wrote run w₂ w₃) : Wrote run w₁ w₃ :=
  ⟨by rw [h'.runs, h.runs], h'.findings.trans h.findings, h'.active.trans h.active, h'.started.trans h.started,
    h'.abandoned.trans h.abandoned, Nat.le_trans h.minted h'.minted⟩

section store

variable {w : World}

theorem wp_validateLedgerId {field value : String} :
    wp (validateLedgerId field value) (fun _ w' => w' = w) (fun _ w' => w' = w) w := by
  unfold validateLedgerId
  split_ifs
  · exact rfl
  · exact rfl

theorem wp_admitted : wp admitted (fun _ w' => Quiet w w') (fun _ w' => Quiet w w') w := by
  have hnext : wp nextChoice (fun _ w' => Quiet w w') (fun _ w' => Quiet w w') w := by
    unfold nextChoice
    rw [wp_bind, wp_get]
    split
    · exact Quiet.refl w
    · exact ⟨rfl, rfl, rfl, rfl, rfl, Nat.le_refl _⟩
  unfold admitted
  rw [wp_bind]
  refine wp_mono hnext (fun c w' h => ?_) (fun _ _ h => h)
  cases c.fault with
  | none => exact h
  | some e => exact h

theorem wp_newId (env : Env) :
    wp (newId env) (fun id w' => id = env.gen w.minted ∧ Quiet w w' ∧ w'.minted = w.minted + 1)
      (fun _ w' => Quiet w w') w := by
  exact ⟨rfl, ⟨rfl, rfl, rfl, rfl, rfl, Nat.le_succ _⟩, rfl⟩

theorem wp_loadRun (romSha1 runId : String) :
    wp (loadRun romSha1 runId) (fun run w' => Quiet w w' ∧ w.ledger.runs.find (romSha1, runId) = some run)
      (fun _ w' => Quiet w w') w := by
  unfold loadRun
  rw [wp_bind]
  refine wp_mono wp_validateLedgerId (fun _ w₁ h₁ => ?_) (fun _ w₁ h₁ => h₁ ▸ Quiet.refl w)
  subst h₁
  rw [wp_bind]
  refine wp_mono wp_validateLedgerId (fun _ w₁ h₁ => ?_) (fun _ w₁ h₁ => h₁ ▸ Quiet.refl _)
  subst h₁
  rw [wp_bind]
  refine wp_mono wp_admitted (fun _ w₁ h₁ => ?_) (fun _ _ h => h)
  rw [wp_bind, wp_get, h₁.runs]
  split
  · next run hfind => exact ⟨h₁, hfind⟩
  · exact h₁

theorem wp_load (romSha1 runId : String) :
    wp (load romSha1 runId) (fun run w' => Quiet w w' ∧ w.ledger.runs.find (romSha1, runId) = some run)
      (fun _ w' => Quiet w w') w := by
  unfold load
  rw [wp_bind, wp_attempt]
  refine wp_mono (wp_loadRun romSha1 runId) (fun run w₁ h₁ => h₁) (fun e w₁ h₁ => ?_)
  split
  · next h => cases h
  · exact h₁
  · exact h₁

theorem wp_saveRun (env : Env) (run : Run) :
    wp (saveRun env run) (fun _ w' => Wrote (env.codec.run run) w w') (fun _ w' => Quiet w w') w := by
  unfold saveRun
  rw [wp_bind]
  refine wp_mono wp_validateLedgerId (fun _ w₁ h₁ => ?_) (fun _ w₁ h₁ => h₁ ▸ Quiet.refl w)
  subst h₁
  rw [wp_bind]
  refine wp_mono wp_validateLedgerId (fun _ w₁ h₁ => ?_) (fun _ w₁ h₁ => h₁ ▸ Quiet.refl _)
  subst h₁
  rw [wp_bind]
  refine wp_mono wp_admitted (fun _ w₁ h₁ => ?_) (fun _ _ h => h)
  rw [wp_modify]
  exact Wrote.after h₁ ⟨rfl, rfl, rfl, rfl, rfl, Nat.le_refl _⟩

def Rewrote (env : Env) (key : String × String) (C : Run → Run → Prop) (w w' : World) : Prop :=
  ∃ run run', w.ledger.runs.find key = some run ∧ C run run' ∧ Wrote (env.codec.run run') w w'

theorem Rewrote.mono {env : Env} {key : String × String} {C C' : Run → Run → Prop} {w w' : World}
    (h : Rewrote env key C w w') (hC : ∀ run run', C run run' → C' run run') : Rewrote env key C' w w' := by
  obtain ⟨run, run', hfind, hchange, hwrote⟩ := h
  exact ⟨run, run', hfind, hC run run' hchange, hwrote⟩

theorem wp_rewriteRun {env : Env} {romSha1 runId : String} {change : Run → TrackM Run} {C : Run → Run → Prop}
    (hchange : ∀ run w, wp (change run) (fun run' w' => Quiet w w' ∧ C run run') (fun _ w' => Quiet w w') w) :
    wp (rewriteRun env romSha1 runId change) (fun _ w' => Rewrote env (romSha1, runId) C w w')
      (fun _ w' => Quiet w w') w := by
  unfold rewriteRun
  rw [wp_bind]
  refine wp_mono (wp_load romSha1 runId) (fun run w₁ h₁ => ?_) (fun _ _ h => h)
  rw [wp_bind]
  refine wp_mono (hchange run w₁) (fun run' w₂ h₂ => ?_) (fun _ w₂ h₂ => h₁.1.trans h₂)
  refine wp_mono (wp_saveRun env run') (fun _ w₃ h₃ => ?_) (fun _ w₃ h₃ => (h₁.1.trans h₂.1).trans h₃)
  exact ⟨run, run', h₁.2, h₂.2, h₃.after (h₁.1.trans h₂.1)⟩

end store

/-! ## The operations on runs -/

section operations

variable {env : Env} {w : World} (romSha1 runId : String)

theorem wp_finishRun (status : RunStatus) (now : String) :
    wp (finishRun env romSha1 runId status now)
      (fun _ w' => Rewrote env (romSha1, runId) (fun run run' => run' = { run with status, endedAt := some now }) w w')
      (fun _ w' => Quiet w w') w :=
  wp_rewriteRun fun _ w => ⟨Quiet.refl w, rfl⟩

theorem wp_setReproduction (base movieRef : Option String) :
    wp (setReproduction env romSha1 runId base movieRef)
      (fun _ w' => Rewrote env (romSha1, runId) (fun run run' => ∃ base' movieRef',
        run' = { run with reproBase := base', reproMovieRef := movieRef',
                          reproStatus := some (deriveStatus run.interventions) }) w w')
      (fun _ w' => Quiet w w') w :=
  wp_rewriteRun fun _ w => ⟨Quiet.refl w, _, _, rfl⟩

theorem wp_markSavestateOnly :
    wp (markSavestateOnly env romSha1 runId)
      (fun _ w' => Rewrote env (romSha1, runId) (fun run run' => run' = { run with reproStatus := some .savestateOnly }) w w')
      (fun _ w' => Quiet w w') w :=
  wp_rewriteRun fun _ w => ⟨Quiet.refl w, rfl⟩

theorem wp_logMetric (now name : String) (value : UInt64) :
    wp (logMetric env romSha1 runId now name value)
      (fun _ w' => Rewrote env (romSha1, runId)
        (fun run run' => ∃ m, run' = { run with metrics := run.metrics ++ [m] }) w w')
      (fun _ w' => Quiet w w') w := by
  refine wp_rewriteRun fun run w => ?_
  rw [wp_bind]
  exact wp_mono (wp_newId env) (fun id w₁ h₁ => ⟨h₁.2.1, _, rfl⟩) (fun _ _ h => h)

theorem wp_logGate (now name : String) (kind : GateKind) (passed : Option Bool)
    (evidenceRef detail caseRef : Option String) :
    wp (logGate env romSha1 runId now name kind passed evidenceRef detail caseRef)
      (fun _ w' => Rewrote env (romSha1, runId)
        (fun run run' => ∃ g, run' = { run with gates := run.gates ++ [g] }) w w')
      (fun _ w' => Quiet w w') w := by
  refine wp_rewriteRun fun run w => ?_
  rw [wp_bind]
  exact wp_mono (wp_newId env) (fun id w₁ h₁ => ⟨h₁.2.1, _, rfl⟩) (fun _ _ h => h)

theorem wp_logArtifact (kind : String) (evidence : Evidence) (metadata : Option Json) :
    wp (logArtifact env romSha1 runId kind evidence metadata)
      (fun _ w' => Rewrote env (romSha1, runId)
        (fun run run' => ∃ a, run' = { run with artifacts := run.artifacts ++ [a] }) w w')
      (fun _ w' => Quiet w w') w := by
  unfold logArtifact
  rw [wp_bind]
  refine wp_mono (wp_load romSha1 runId) (fun run w₁ h₁ => ?_) (fun _ _ h => h)
  cases evidence with
  | missing text => exact h₁.1
  | refused e => exact h₁.1
  | hashed path sha256 =>
    rw [wp_bind]
    refine wp_mono (wp_newId env) (fun id w₂ h₂ => ?_) (fun _ _ h => h₁.1.trans h)
    rw [wp_bind]
    refine wp_mono (wp_saveRun env _) (fun _ w₃ h₃ => ?_) (fun _ w₃ h₃ => (h₁.1.trans h₂.2.1).trans h₃)
    exact ⟨run, _, h₁.2, ⟨_, rfl⟩, h₃.after (h₁.1.trans h₂.2.1)⟩

theorem wp_logIntervention (now : String) (atFrame : Option ℕ) (atEvent : Option String) (frozenContext : Bool)
    (op : String) (args : Json) :
    wp (logIntervention env romSha1 runId now atFrame atEvent frozenContext op args)
      (fun _ w' => Rewrote env (romSha1, runId)
        (fun run run' => ∃ i : Intervention, i.seq = run.interventions.length ∧ i.op = op ∧
          run' = { run with
            interventions := run.interventions ++ [i]
            reproStatus := some (deriveStatus (run.interventions ++ [i])) }) w w')
      (fun _ w' => Quiet w w') w := by
  refine wp_rewriteRun fun run w => ?_
  rw [wp_bind]
  exact wp_mono (wp_newId env) (fun id w₁ h₁ => ⟨h₁.2.1, _, rfl, rfl, rfl⟩) (fun _ _ h => h)

end operations

/-! ## New records -/

section creation

variable {env : Env} {w : World}

theorem wp_loadRom (sha1 : String) :
    wp (loadRom sha1) (fun _ w' => Quiet w w') (fun _ w' => Quiet w w') w := by
  unfold loadRom
  rw [wp_bind]
  refine wp_mono wp_validateLedgerId (fun _ w₁ h₁ => ?_) (fun _ w₁ h₁ => h₁ ▸ Quiet.refl w)
  subst h₁
  rw [wp_bind]
  refine wp_mono wp_admitted (fun _ w₁ h₁ => ?_) (fun _ _ h => h)
  rw [wp_bind, wp_get]
  split
  · exact h₁
  · exact h₁

theorem wp_saveRom (rom : Rom) :
    wp (saveRom rom) (fun _ w' => Quiet w w') (fun _ w' => Quiet w w') w := by
  unfold saveRom
  rw [wp_bind]
  refine wp_mono wp_validateLedgerId (fun _ w₁ h₁ => ?_) (fun _ w₁ h₁ => h₁ ▸ Quiet.refl w)
  subst h₁
  rw [wp_bind]
  refine wp_mono wp_admitted (fun _ w₁ h₁ => ?_) (fun _ _ h => h)
  rw [wp_modify]
  exact h₁.trans ⟨rfl, rfl, rfl, rfl, rfl, Nat.le_refl _⟩

/-- A new run under an identifier generated on the way. -/
structure Created (env : Env) (run : Run) (w w' : World) : Prop where
  runs : w'.ledger.runs = w.ledger.runs.put run
  findings : w'.ledger.findings = w.ledger.findings
  active : w'.active = w.active
  started : w'.started = run.id :: w.started
  abandoned : w'.abandoned = w.abandoned
  minted : ∃ n, w.minted ≤ n ∧ n < w'.minted ∧ run.id = env.gen n

/-- The run that `create_run` writes. -/
structure Fresh (romSha1 : String) (connectionRef : Option String) (run : Run) : Prop where
  romSha1 : run.romSha1 = romSha1
  connectionRef : run.connectionRef = connectionRef
  status : run.status = .running
  gates : run.gates = []
  metrics : run.metrics = []
  artifacts : run.artifacts = []
  interventions : run.interventions = []

theorem wp_ensureRom (now romSha1 : String) :
    wp (ensureRom now romSha1) (fun _ w' => Quiet w w') (fun _ w' => Quiet w w') w := by
  unfold ensureRom
  rw [wp_bind, wp_attempt]
  refine wp_mono (wp_loadRom romSha1) (fun _ w₁ h₁ => h₁) (fun e w₁ h₁ => ?_)
  split
  · next h => cases h
  · exact wp_mono (wp_saveRom _) (fun _ _ h => h₁.trans h) (fun _ _ h => h₁.trans h)
  · exact h₁

theorem wp_createRun (now romSha1 : String) (goal description : Option String) (tags : List String)
    (connectionRef : Option String) :
    wp (createRun env now romSha1 goal description tags connectionRef)
      (fun run w' => Fresh romSha1 connectionRef run ∧ Created env run w w') (fun _ w' => Quiet w w') w := by
  unfold createRun
  rw [wp_bind]
  refine wp_mono wp_validateLedgerId (fun _ w₁ h₁ => ?_) (fun _ w₁ h₁ => h₁ ▸ Quiet.refl w)
  subst h₁
  rw [wp_bind]
  refine wp_mono (wp_ensureRom now romSha1) (fun _ w₁ h₁ => ?_) (fun _ _ h => h)
  rw [wp_bind]
  refine wp_mono (wp_newId env) (fun id w₂ h₂ => ?_) (fun _ _ h => h₁.trans h)
  obtain ⟨hid, h₂, hminted⟩ := h₂
  rw [wp_bind]
  refine wp_mono (wp_saveRun env _) (fun _ w₃ h₃ => ?_) (fun _ w₃ h₃ => (h₁.trans h₂).trans h₃)
  refine ⟨⟨rfl, rfl, rfl, rfl, rfl, rfl, rfl⟩, ?_⟩
  have hwrote := h₃.after (h₁.trans h₂)
  have hle := h₁.minted
  have hlt := h₃.minted
  refine ⟨hwrote.runs, hwrote.findings, hwrote.active, ?_, hwrote.abandoned, w₁.minted, hle, ?_, hid⟩
  · show _ :: w₃.started = _
    rw [hwrote.started]
  · show _ < w₃.minted
    omega

theorem wp_validateRunRef (runId : Option String) :
    wp (validateRunRef runId) (fun _ w' => w' = w) (fun _ w' => w' = w) w := by
  cases runId with
  | none => exact rfl
  | some runId => exact wp_validateLedgerId

theorem wp_logFinding (romSha1 now claim : String) (runId : Option String) (evidenceRefs : List String)
    (promoted : Bool) :
    wp (logFinding env romSha1 now claim runId evidenceRefs promoted)
      (fun id w' => w'.ledger.runs = w.ledger.runs ∧ w'.active = w.active ∧ w'.started = w.started ∧
        w'.abandoned = w.abandoned ∧ w.minted ≤ w'.minted ∧
        w'.ledger.findings = w.ledger.findings.put ⟨id, romSha1, runId, claim, evidenceRefs, promoted, now⟩)
      (fun _ w' => Quiet w w') w := by
  unfold logFinding
  rw [wp_bind]
  refine wp_mono (wp_newId env) (fun id w₁ h₁ => ?_) (fun _ _ h => h)
  obtain ⟨-, h₁, -⟩ := h₁
  unfold saveFinding
  rw [wp_bind, wp_bind]
  refine wp_mono wp_validateLedgerId (fun _ w₂ h₂ => ?_) (fun _ w₂ h₂ => h₂ ▸ h₁)
  subst h₂
  rw [wp_bind]
  refine wp_mono wp_validateLedgerId (fun _ w₂ h₂ => ?_) (fun _ w₂ h₂ => h₂ ▸ h₁)
  subst h₂
  rw [wp_bind]
  refine wp_mono (wp_validateRunRef runId) (fun _ w₂ h₂ => ?_) (fun _ w₂ h₂ => h₂ ▸ h₁)
  subst h₂
  rw [wp_bind]
  refine wp_mono wp_admitted (fun _ w₂ h₂ => ?_) (fun _ _ h => h₁.trans h)
  have h := h₁.trans h₂
  refine ⟨h.runs, h.active, h.started, h.abandoned, h.minted, ?_⟩
  show w₂.ledger.findings.put _ = _
  rw [h.findings]

end creation

end Emucap.Track
