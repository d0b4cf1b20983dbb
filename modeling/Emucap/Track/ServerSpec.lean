import Emucap.Track.Server

/-!
# What a call of the tracking server does

Everything a call can do to the ledger and to the active run, as one relation (`Effect`) with one constructor
for each way a call can end. Runs that give way are closed, some of them more than once (`Closed`).
-/

namespace Emucap.Track

open Emucap.Lib

def ActiveRun.key (a : ActiveRun) : String × String := (a.romSha1, a.runId)

/-! ## Closing -/

def closed (env : Env) (now : String) (run : Run) : Run :=
  env.codec.run { run with status := .aborted, endedAt := some now }

theorem closed_iterate_status (env : Env) (now : String) (n : ℕ) (run : Run) :
    ((closed env now)^[n + 1] run).status = .aborted := by
  rw [Function.iterate_succ_apply']
  rfl

/-- Runs under the keys of `K` were closed, and nothing else happened to the runs. -/
structure Closed (env : Env) (now : String) (K : String × String → Prop) (w w' : World) : Prop where
  runs : ∀ key, w'.ledger.runs.find key = w.ledger.runs.find key ∨
    K key ∧ ∃ run n, w.ledger.runs.find key = some run ∧
      w'.ledger.runs.find key = some ((closed env now)^[n + 1] run)
  findings : w'.ledger.findings = w.ledger.findings
  active : w'.active = w.active
  started : w'.started = w.started
  abandoned : ∀ id ∈ w.abandoned, id ∈ w'.abandoned
  minted : w.minted ≤ w'.minted

section closing

variable {env : Env} {now : String} {K K' : String × String → Prop} {w w₁ w₂ : World}

theorem Quiet.closed (h : Quiet w w₁) : Closed env now K w w₁ :=
  ⟨fun key => .inl (by rw [h.runs]), h.findings, h.active, h.started, fun _ hid => h.abandoned ▸ hid, h.minted⟩

theorem Closed.mono (h : Closed env now K w w₁) (hK : ∀ key, K key → K' key) : Closed env now K' w w₁ :=
  ⟨fun key => (h.runs key).imp_right fun ⟨hkey, hrun⟩ => ⟨hK key hkey, hrun⟩, h.findings, h.active, h.started,
    h.abandoned, h.minted⟩

theorem Closed.trans (h : Closed env now K w w₁) (h' : Closed env now K w₁ w₂) : Closed env now K w w₂ := by
  refine ⟨fun key => ?_, h'.findings.trans h.findings, h'.active.trans h.active, h'.started.trans h.started,
    fun id hid => h'.abandoned id (h.abandoned id hid), Nat.le_trans h.minted h'.minted⟩
  rcases h'.runs key with hsame | ⟨hkey, run, n, hfind, hclosed⟩
  · rw [hsame]
    exact h.runs key
  · refine .inr ⟨hkey, ?_⟩
    rcases h.runs key with hsame | ⟨-, run₀, m, hfind₀, hclosed₀⟩
    · exact ⟨run, n, hsame ▸ hfind, hclosed⟩
    · obtain rfl : (Track.closed env now)^[m + 1] run₀ = run := Option.some.inj (hclosed₀.symm.trans hfind)
      refine ⟨run₀, n + 1 + m, hfind₀, ?_⟩
      rw [hclosed, ← Function.iterate_add_apply]
      rfl

theorem Rewrote.closed {key : String × String}
    (h : Rewrote env key (fun run run' => run' = { run with status := .aborted, endedAt := some now }) w w₁)
    (hkey : K key) : Closed env now K w w₁ := by
  obtain ⟨run, run', hfind, rfl, hwrote⟩ := h
  refine ⟨fun key' => ?_, hwrote.findings, hwrote.active, hwrote.started, fun _ hid => hwrote.abandoned ▸ hid,
    hwrote.minted⟩
  have hrun : run.key = key := (Table.find_eq_some.mp hfind).2
  rw [hwrote.runs]
  by_cases hkey' : key' = key
  · subst hkey'
    refine .inr ⟨hkey, run, 0, hfind, ?_⟩
    rw [← hrun]
    exact Table.find_put_self _ _
  · refine .inl (Table.find_put_of_ne ?_)
    rw [← hrun] at hkey'
    exact hkey'

/-- The run that gave way is closed, or known to have been left running. -/
def Retired (prev : ActiveRun) (w : World) : Prop :=
  prev.runId ∈ w.abandoned ∨ ∃ run, w.ledger.runs.find prev.key = some run ∧ run.status = .aborted

theorem Closed.retired {prev : ActiveRun} (h : Closed env now K w w₁) (hprev : Retired prev w) : Retired prev w₁ := by
  rcases hprev with hid | ⟨run, hfind, hstatus⟩
  · exact .inl (h.abandoned _ hid)
  · rcases h.runs prev.key with hsame | ⟨-, run', n, -, hclosed⟩
    · exact .inr ⟨run, hsame.trans hfind, hstatus⟩
    · exact .inr ⟨_, hclosed, closed_iterate_status env now n run'⟩

theorem wp_supersede (prev : ActiveRun) :
    wp (supersede env now prev) (fun _ w' => Closed env now (· = prev.key) w w' ∧ Retired prev w')
      (fun _ _ => False) w := by
  unfold supersede
  rw [wp_bind, wp_attempt]
  refine wp_mono (wp_finishRun prev.romSha1 prev.runId .aborted now) (fun _ w₁ h₁ => ?_) (fun e w₁ h₁ => ?_)
  · have hclosed : Closed env now (· = prev.key) w w₁ := h₁.closed rfl
    refine ⟨hclosed, .inr ?_⟩
    obtain ⟨run, run', hfind, rfl, hwrote⟩ := h₁
    have hrun : run.key = prev.key := (Table.find_eq_some.mp hfind).2
    refine ⟨Track.closed env now run, ?_, rfl⟩
    rw [hwrote.runs, ← hrun]
    exact Table.find_put_self _ _
  · refine ⟨⟨fun key => .inl (by rw [← h₁.runs]), h₁.findings, h₁.active, h₁.started, fun id hid => ?_, h₁.minted⟩, .inl ?_⟩
    · exact List.mem_cons_of_mem _ (h₁.abandoned ▸ hid)
    · exact List.mem_cons_self

theorem wp_closeStale (stale : List (String × String)) :
    wp (closeStale env now stale) (fun _ w' => Closed env now (· ∈ stale) w w') (fun _ _ => False) w := by
  induction stale generalizing w with
  | nil => exact Quiet.closed (Quiet.refl w)
  | cons key stale ih =>
    show wp (attempt _ >>= _) _ _ w
    rw [wp_bind, wp_attempt]
    refine wp_mono (wp_finishRun key.1 key.2 .aborted now) (fun _ w₁ h₁ => ?_) (fun e w₁ h₁ => Quiet.closed h₁)
    have hfirst : Closed env now (· ∈ key :: stale) w w₁ := h₁.closed List.mem_cons_self
    exact wp_mono ih (fun _ w₂ h₂ => hfirst.trans (h₂.mono fun _ hkey => List.mem_cons_of_mem _ hkey)) (fun _ _ h => h)

end closing

/-! ## The effect of a call -/

def Appends : Call → Run → Run → Prop
  | .logMetric _ _, run, run' => ∃ m, run' = { run with metrics := run.metrics ++ [m] }
  | .logGate _ _ _ _ _ _, run, run' => ∃ g, run' = { run with gates := run.gates ++ [g] }
  | .logArtifact _ _ _, run, run' => ∃ a, run' = { run with artifacts := run.artifacts ++ [a] }
  | .logIntervention _ _ _ _ _, run, run' => ∃ i : Intervention, i.seq = run.interventions.length ∧
      run' = { run with
        interventions := run.interventions ++ [i]
        reproStatus := some (deriveStatus (run.interventions ++ [i])) }
  | _, _, _ => False

/-- The runs that `run_start` supersedes: the active one, and those its connection left unfinished. -/
def Superseded (call : Call) (w : World) (key : String × String) : Prop :=
  w.active.map ActiveRun.key = some key ∨
    ∃ romSha1 connectionRef goal description tags, call = .runStart romSha1 (some connectionRef) goal description tags ∧
      ∃ run ∈ w.ledger.runs.rows, run.key = key ∧ run.unfinishedFor connectionRef

/-- The active run was taken away and the runs that give way were closed. -/
structure GaveWay (env : Env) (now : String) (call : Call) (w w' : World) : Prop where
  closed : Closed env now (Superseded call w) { w with active := none } w'
  retired : ∀ prev, w.active = some prev → Retired prev w'

/-- All that a call can do; the flag says whether it is answered with an error. -/
inductive Effect (env : Env) (now : String) (call : Call) (w : World) : Bool → World → Prop
  | refused {w' : World} (quiet : Quiet w w') : Effect env now call w true w'
  | appended {w' : World} {a : ActiveRun} (active : w.active = some a)
      (rewrote : Rewrote env a.key (Appends call) w w') : Effect env now call w false w'
  | reproduced {w' : World} {a : ActiveRun} {base movieRef : Option String} (tool : call = .setReproduction base movieRef)
      (active : w.active = some a)
      (rewrote : Rewrote env a.key (fun run run' => ∃ base' movieRef',
        run' = { run with reproBase := base', reproMovieRef := movieRef',
                          reproStatus := some (deriveStatus run.interventions) }) w w') : Effect env now call w false w'
  | found {w' : World} {id romSha1 claim : String} {arg : Option String} {evidenceRefs : List String} {promoted : Bool}
      (tool : call = .logFinding arg claim evidenceRefs promoted)
      (rom : arg.or (w.active.map ActiveRun.romSha1) = some romSha1)
      (rest : w'.ledger.runs = w.ledger.runs ∧ w'.active = w.active ∧ w'.started = w.started ∧
        w'.abandoned = w.abandoned ∧ w.minted ≤ w'.minted)
      (findings : w'.ledger.findings =
        w.ledger.findings.put ⟨id, romSha1, w.active.map ActiveRun.runId, claim, evidenceRefs, promoted, now⟩) :
      Effect env now call w false w'
  | finished {w' w'' : World} {key : String × String} {status runId : Option String} {status' : RunStatus}
      (tool : call = .runFinish status runId)
      (target : w.active.map ActiveRun.key = some key ∨
        ∀ run ∈ w.ledger.runs.rows, run.id = key.2 → run.key = key)
      (closes : status' ≠ .running)
      (rewrote : Rewrote env key (fun run run' => run' = { run with status := status', endedAt := some now }) w w')
      (active : w'' = { w' with active := w'.active.filter fun a => a.runId ≠ key.2 }) :
      Effect env now call w false w''
  | rebound {w' w'' : World} {run : Run} (stored : run ∈ w.ledger.runs.rows) (running : run.status = .running)
      (tool : (∃ runId, call = .runResume runId) ∨
        ∃ romSha1 connectionRef goal description tags, call = .runStart romSha1 connectionRef goal description tags)
      (closed : Closed env now (fun key => w.active.map ActiveRun.key = some key ∧ key.2 ≠ run.id) w w')
      (retired : ∀ prev, w.active = some prev → prev.runId ≠ run.id → Retired prev w')
      (bound : w'' = { w' with active := some run.binding, abandoned := w'.abandoned.filter fun id => id ≠ run.id }) :
      Effect env now call w false w''
  | started {w' w'' w''' : World} {run : Run} {romSha1 : String} {connectionRef goal description : Option String}
      {tags : List String} (tool : call = .runStart romSha1 connectionRef goal description tags)
      (gaveWay : GaveWay env now call w w') (fresh : Fresh romSha1 connectionRef run) (created : Created env run w' w'')
      (bound : w''' = { w'' with active := some run.binding }) : Effect env now call w false w'''
  | notStarted {w' w'' : World} {romSha1 : String} {connectionRef goal description : Option String} {tags : List String}
      (tool : call = .runStart romSha1 connectionRef goal description tags)
      (gaveWay : GaveWay env now call w w') (quiet : Quiet w' w'') : Effect env now call w true w''

/-! ## Finding runs -/

section finding

variable {env : Env} {now : String} {w : World}

theorem wp_walkRuns :
    wp walkRuns (fun runs w' => Quiet w w' ∧ ∀ run ∈ runs, run ∈ w.ledger.runs.rows) (fun _ w' => Quiet w w') w := by
  unfold walkRuns
  rw [wp_bind]
  refine wp_mono wp_admitted (fun c w₁ h₁ => ?_) (fun _ _ h => h)
  rw [wp_bind, wp_get]
  refine ⟨h₁, fun run hrun => ?_⟩
  rw [h₁.runs] at hrun
  exact (c.perm _).mem_iff.mp hrun

theorem wp_walkRunsLenient :
    wp walkRunsLenient (fun runs w' => Quiet w w' ∧ ∀ run ∈ runs, run ∈ w.ledger.runs.rows)
      (fun _ w' => Quiet w w') w := by
  unfold walkRunsLenient
  rw [wp_bind]
  refine wp_mono wp_admitted (fun c w₁ h₁ => ?_) (fun _ _ h => h)
  rw [wp_bind, wp_get]
  refine ⟨h₁, fun run hrun => ?_⟩
  rw [h₁.runs] at hrun
  exact (c.perm _).mem_iff.mp (List.mem_filter.mp hrun).1

theorem wp_findRunById (runId : String) :
    wp (findRunById runId)
      (fun found w' => Quiet w w' ∧ ∀ run, found = some run →
        run ∈ w.ledger.runs.rows ∧ ∀ run' ∈ w.ledger.runs.rows, run'.id = run.id → run' = run)
      (fun _ w' => Quiet w w') w := by
  unfold findRunById
  rw [wp_bind]
  refine wp_mono wp_validateLedgerId (fun _ w₁ h₁ => ?_) (fun _ w₁ h₁ => h₁ ▸ Quiet.refl w)
  subst h₁
  rw [wp_bind]
  refine wp_mono wp_admitted (fun c w₁ h₁ => ?_) (fun _ _ h => h)
  rw [wp_bind, wp_get, h₁.runs]
  split
  · rw [wp_pure]
    exact ⟨h₁, fun run hnone => by cases hnone⟩
  · next run hfilter =>
    rw [wp_pure]
    refine ⟨h₁, fun run' hrun' => ?_⟩
    obtain rfl := Option.some.inj hrun'
    have hmem (run' : Run) : run' = run ↔ run' ∈ w₁.ledger.runs.rows ∧ run'.id = runId := by
      rw [← List.mem_singleton, ← hfilter, List.mem_filter, (c.perm _).mem_iff, decide_eq_true_eq, h₁.runs]
    rw [← h₁.runs]
    have hrun := (hmem run).mp rfl
    exact ⟨hrun.1, fun run' hrun' hid => (hmem run').mpr ⟨hrun', hid.trans hrun.2⟩⟩
  · exact h₁

theorem foldl_latest_mem (runs : List Run) (run : Run) :
    runs.foldl (fun x y => if y.startedAt < x.startedAt then x else y) run ∈ run :: runs := by
  induction runs generalizing run with
  | nil => exact List.mem_cons_self
  | cons next runs ih =>
    rw [List.foldl_cons]
    have h := ih (if next.startedAt < run.startedAt then run else next)
    split_ifs at h ⊢
    · rcases List.mem_cons.mp h with heq | hmem
      · rw [heq]
        exact List.mem_cons_self
      · exact List.mem_cons_of_mem _ (List.mem_cons_of_mem _ hmem)
    · exact List.mem_cons_of_mem _ h

theorem mem_of_latestStarted {runs : List Run} {run : Run} (h : latestStarted runs = some run) : run ∈ runs := by
  cases runs with
  | nil => cases h
  | cons first runs => exact Option.some.inj h ▸ foldl_latest_mem runs first

theorem wp_findResumableRun (connectionRef romSha1 : String) :
    wp (findResumableRun connectionRef romSha1)
      (fun found w' => Quiet w w' ∧ ∀ binding, found = some binding →
        ∃ run ∈ w.ledger.runs.rows, run.status = .running ∧ run.binding = binding)
      (fun _ w' => Quiet w w') w := by
  unfold findResumableRun
  rw [wp_bind]
  refine wp_mono wp_validateLedgerId (fun _ w₁ h₁ => ?_) (fun _ w₁ h₁ => h₁ ▸ Quiet.refl w)
  subst h₁
  rw [wp_bind]
  refine wp_mono wp_walkRunsLenient (fun runs w₁ h₁ => ⟨h₁.1, ?_⟩) (fun _ _ h => h)
  intro binding hbinding
  obtain ⟨run, hlatest, rfl⟩ := Option.map_eq_some_iff.mp hbinding
  have hmem := List.mem_filter.mp (mem_of_latestStarted hlatest)
  have hunfinished := hmem.2
  simp only [Run.unfinishedFor, Bool.decide_and, Bool.and_eq_true, decide_eq_true_eq] at hunfinished
  exact ⟨run, h₁.2 run hmem.1, hunfinished.1.1, rfl⟩

theorem wp_resumable (romSha1 : String) (connectionRef : Option String) :
    wp (resumable romSha1 connectionRef)
      (fun found w' => Quiet w w' ∧ ∀ binding, found = some binding →
        ∃ run ∈ w.ledger.runs.rows, run.status = .running ∧ run.binding = binding)
      (fun _ w' => Quiet w w') w := by
  cases connectionRef with
  | none => exact ⟨Quiet.refl w, nofun⟩
  | some connectionRef =>
    show wp (attempt _ >>= _) _ _ w
    rw [wp_bind, wp_attempt]
    refine wp_mono (wp_findResumableRun connectionRef romSha1) (fun _ _ h => h) (fun e w₁ h₁ => ?_)
    show wp (if e.code = "resource_limit" then throw e else return none) _ _ w₁
    split_ifs
    · exact h₁
    · exact ⟨h₁, nofun⟩

theorem wp_resumeRunById (runId : String) :
    wp (resumeRunById runId)
      (fun binding w' => Quiet w w' ∧ ∃ run ∈ w.ledger.runs.rows, run.status = .running ∧ run.binding = binding)
      (fun _ w' => Quiet w w') w := by
  unfold resumeRunById
  rw [wp_bind]
  refine wp_mono (wp_findRunById runId) (fun found w₁ h₁ => ?_) (fun _ _ h => h)
  cases found with
  | none => exact h₁.1
  | some run =>
    by_cases hrunning : run.status = .running
    · simp only [hrunning, ne_eq, not_true_eq_false, if_false]
      exact ⟨h₁.1, run, (h₁.2 run rfl).1, hrunning, rfl⟩
    · simp only [ne_eq, hrunning, not_false_eq_true, if_true]
      exact h₁.1

theorem wp_prepareStartRun (romSha1 : String) (connectionRef : Option String) :
    wp (prepareStartRun romSha1 connectionRef)
      (fun stale w' => Quiet w w' ∧ ∀ key ∈ stale, ∃ c, connectionRef = some c ∧
        ∃ run ∈ w.ledger.runs.rows, run.key = key ∧ run.unfinishedFor c)
      (fun _ w' => Quiet w w') w := by
  unfold prepareStartRun
  rw [wp_bind]
  refine wp_mono wp_validateLedgerId (fun _ w₁ h₁ => ?_) (fun _ w₁ h₁ => h₁ ▸ Quiet.refl w)
  subst h₁
  cases connectionRef with
  | none => exact ⟨Quiet.refl _, nofun⟩
  | some c =>
    show wp (attempt walkRuns >>= _) _ _ w₁
    rw [wp_bind, wp_attempt]
    refine wp_mono wp_walkRuns (fun runs w₂ h₂ => ⟨h₂.1, ?_⟩) (fun e w₂ h₂ => ?_)
    · intro key hkey
      obtain ⟨run, hrun, rfl⟩ := List.mem_map.mp hkey
      have hmem := List.mem_filter.mp hrun
      exact ⟨c, rfl, run, h₂.2 run hmem.1, rfl, hmem.2⟩
    · split
      · next h => cases h
      · exact h₂
      · exact ⟨h₂, nofun⟩

end finding

/-! ## The tools -/

section tools

variable {env : Env} {now : String} {call : Call} {w : World}

theorem wp_supersedeOther (binding : ActiveRun) (active : Option ActiveRun) :
    wp (supersedeOther env now binding active)
      (fun _ w' => Closed env now (fun key => active.map ActiveRun.key = some key ∧ key.2 ≠ binding.runId) w w' ∧
        ∀ prev, active = some prev → prev.runId ≠ binding.runId → Retired prev w')
      (fun _ _ => False) w := by
  cases active with
  | none => exact ⟨Quiet.closed (Quiet.refl w), nofun⟩
  | some prev =>
    show wp (if prev.runId ≠ binding.runId then supersede env now prev else pure ()) _ _ w
    by_cases hne : prev.runId ≠ binding.runId
    · rw [if_pos hne]
      refine wp_mono (wp_supersede prev) (fun _ w₁ h₁ => ⟨h₁.1.mono ?_, ?_⟩) (fun _ _ h => h)
      · rintro _ rfl
        exact ⟨rfl, hne⟩
      · rintro _ ⟨⟩ -
        exact h₁.2
    · rw [if_neg hne]
      refine ⟨Quiet.closed (Quiet.refl w), ?_⟩
      rintro _ ⟨⟩ h
      exact absurd h hne

theorem wp_rebindActive {w₀ : World} {run : Run} (hquiet : Quiet w₀ w) (hrun : run ∈ w₀.ledger.runs.rows)
    (hrunning : run.status = .running)
    (htool : (∃ runId, call = .runResume runId) ∨
      ∃ romSha1 connectionRef goal description tags, call = .runStart romSha1 connectionRef goal description tags)
    (callerSuppliedMeta : Bool) :
    wp (rebindActive env now run.binding callerSuppliedMeta) (fun _ w' => Effect env now call w₀ false w')
      (fun _ w' => Effect env now call w₀ true w') w := by
  unfold rebindActive
  rw [wp_bind, wp_get, wp_bind, hquiet.active]
  refine wp_mono (wp_supersedeOther run.binding w₀.active) (fun _ w₁ h₁ => ?_) (fun _ _ h => h.elim)
  exact .rebound hrun hrunning htool (hquiet.closed.trans h₁.1) h₁.2 rfl

theorem wp_runResume (runId : String) :
    wp (runResume env now runId) (fun _ w' => Effect env now (.runResume runId) w false w')
      (fun _ w' => Effect env now (.runResume runId) w true w') w := by
  unfold runResume
  rw [wp_bind]
  refine wp_mono (wp_resumeRunById runId) (fun binding w₁ h₁ => ?_) (fun _ _ h => .refused h)
  obtain ⟨hquiet, run, hrun, hrunning, rfl⟩ := h₁
  exact wp_rebindActive hquiet hrun hrunning (.inl ⟨runId, rfl⟩) false

theorem wp_takeActive :
    wp (takeActive env now)
      (fun _ w' => Closed env now (fun key => w.active.map ActiveRun.key = some key) { w with active := none } w' ∧
        ∀ prev, w.active = some prev → Retired prev w')
      (fun _ _ => False) w := by
  unfold takeActive
  rw [wp_bind, wp_get, wp_bind, wp_modify]
  cases hactive : w.active with
  | none => exact ⟨Quiet.closed (Quiet.refl _), nofun⟩
  | some prev =>
    refine wp_mono (wp_supersede prev) (fun _ w₁ h₁ => ⟨h₁.1.mono ?_, ?_⟩) (fun _ _ h => h)
    · rintro _ rfl
      rfl
    · rintro _ ⟨⟩
      exact h₁.2

theorem wp_startNew {w₀ : World} (hquiet : Quiet w₀ w) (romSha1 : String) (connectionRef goal description : Option String)
    (tags : List String) :
    wp (startNew env now romSha1 connectionRef goal description tags)
      (fun _ w' => Effect env now (.runStart romSha1 connectionRef goal description tags) w₀ false w')
      (fun _ w' => Effect env now (.runStart romSha1 connectionRef goal description tags) w₀ true w') w := by
  unfold startNew
  rw [wp_bind]
  refine wp_mono (wp_prepareStartRun romSha1 connectionRef) (fun stale w₁ h₁ => ?_) (fun _ _ h => .refused (hquiet.trans h))
  obtain ⟨hquiet₁, hstale⟩ := h₁
  have hquiet₀ := hquiet.trans hquiet₁
  rw [wp_bind]
  refine wp_mono wp_takeActive (fun _ w₂ h₂ => ?_) (fun _ _ h => h.elim)
  rw [hquiet₀.active] at h₂
  rw [wp_bind]
  refine wp_mono (wp_closeStale stale) (fun _ w₃ h₃ => ?_) (fun _ _ h => h.elim)
  have hway : GaveWay env now (.runStart romSha1 connectionRef goal description tags) w₀ w₃ := by
    have hnone : Quiet { w₀ with active := none } { w₁ with active := none } :=
      ⟨hquiet₀.runs, hquiet₀.findings, rfl, hquiet₀.started, hquiet₀.abandoned, hquiet₀.minted⟩
    refine ⟨hnone.closed.trans ((h₂.1.mono fun _ h => .inl h).trans (h₃.mono fun key hkey => ?_)), fun prev hprev => ?_⟩
    · obtain ⟨c, rfl, run, hrun, hkey, hunfinished⟩ := hstale key hkey
      rw [hquiet.runs] at hrun
      exact .inr ⟨romSha1, c, goal, description, tags, rfl, run, hrun, hkey, hunfinished⟩
    · exact h₃.retired (h₂.2 prev hprev)
  rw [wp_bind]
  refine wp_mono (wp_createRun now romSha1 goal description tags connectionRef) (fun run w₄ h₄ => ?_)
    (fun _ w₄ h₄ => .notStarted rfl hway h₄)
  refine .started rfl hway h₄.1 h₄.2 ?_
  rw [Run.binding, h₄.1.romSha1, h₄.1.connectionRef]

theorem wp_runStart (romSha1 : String) (connectionRef goal description : Option String) (tags : List String) :
    wp (runStart env now romSha1 connectionRef goal description tags)
      (fun _ w' => Effect env now (.runStart romSha1 connectionRef goal description tags) w false w')
      (fun _ w' => Effect env now (.runStart romSha1 connectionRef goal description tags) w true w') w := by
  unfold runStart
  rw [wp_bind]
  refine wp_mono (wp_resumable romSha1 connectionRef) (fun found w₁ h₁ => ?_) (fun _ _ h => .refused h)
  obtain ⟨hquiet, hfound⟩ := h₁
  cases found with
  | none => exact wp_startNew hquiet romSha1 connectionRef goal description tags
  | some binding =>
    obtain ⟨run, hrun, hrunning, rfl⟩ := hfound binding rfl
    exact wp_rebindActive hquiet hrun hrunning (.inr ⟨romSha1, connectionRef, goal, description, tags, rfl⟩) _

theorem wp_parseRunStatus (text : String) :
    wp (parseRunStatus text) (fun status w' => w' = w ∧ status ≠ .running) (fun _ w' => w' = w) w := by
  unfold parseRunStatus
  split
  · exact ⟨rfl, nofun⟩
  · exact ⟨rfl, nofun⟩
  · exact ⟨rfl, nofun⟩
  · exact rfl

theorem wp_parseGateKind (text : String) :
    wp (parseGateKind text) (fun _ w' => w' = w) (fun _ w' => w' = w) w := by
  unfold parseGateKind
  split
  · exact rfl
  · exact rfl
  · exact rfl

theorem wp_finishRunById {status : RunStatus} (runId : String) :
    wp (finishRunById env runId status now)
      (fun id w' => ∃ key : String × String, key.2 = id ∧
        (∀ run ∈ w.ledger.runs.rows, run.id = key.2 → run.key = key) ∧
        Rewrote env key (fun run run' => run' = { run with status, endedAt := some now }) w w')
      (fun _ w' => Quiet w w') w := by
  unfold finishRunById
  rw [wp_bind]
  refine wp_mono (wp_findRunById runId) (fun found w₁ h₁ => ?_) (fun _ _ h => h)
  cases found with
  | none => exact h₁.1
  | some run =>
    rw [wp_bind]
    refine wp_mono (wp_finishRun run.romSha1 run.id status now) (fun _ w₂ h₂ => ?_) (fun _ _ h => h₁.1.trans h)
    refine ⟨run.key, rfl, fun run' hrun' hid => ?_, ?_⟩
    · rw [(h₁.2 run rfl).2 run' hrun' hid]
    · obtain ⟨stored, run', hfind, hrun', hwrote⟩ := h₂
      exact ⟨stored, run', h₁.1.runs ▸ hfind, hrun', hwrote.after h₁.1⟩

theorem wp_runFinish (status runId : Option String) :
    wp (runFinish env now status runId) (fun _ w' => Effect env now (.runFinish status runId) w false w')
      (fun _ w' => Effect env now (.runFinish status runId) w true w') w := by
  unfold runFinish
  rw [wp_bind]
  refine wp_mono (wp_parseRunStatus _) (fun parsed w₁ h₁ => ?_) (fun _ w₁ h₁ => .refused (h₁ ▸ Quiet.refl w))
  obtain ⟨rfl, hcloses⟩ := h₁
  cases runId with
  | some runId =>
    show wp (finishRunById env runId parsed now >>= _) _ _ w₁
    rw [wp_bind]
    refine wp_mono (wp_finishRunById runId) (fun id w₂ h₂ => ?_) (fun _ _ h => .refused h)
    obtain ⟨key, rfl, honly, hrewrote⟩ := h₂
    exact .finished rfl (.inr honly) hcloses hrewrote rfl
  | none =>
    show wp (get >>= _) _ _ w₁
    rw [wp_bind, wp_get]
    cases hactive : w₁.active with
    | none => exact .refused (Quiet.refl _)
    | some a =>
      show wp (finishRun env a.romSha1 a.runId parsed now >>= _) _ _ w₁
      rw [wp_bind]
      refine wp_mono (wp_finishRun a.romSha1 a.runId parsed now) (fun _ w₂ h₂ => ?_) (fun _ _ h => .refused h)
      refine .finished rfl (.inl (by rw [hactive]; rfl)) hcloses h₂ ?_
      obtain ⟨_, _, _, _, hwrote⟩ := h₂
      rw [hwrote.active, hactive, Option.filter_some, if_neg (by simp)]

theorem wp_withActive {f : ActiveRun → TrackM Reply}
    (hf : ∀ a, w.active = some a →
      wp (f a) (fun _ w' => Effect env now call w false w') (fun _ w' => Effect env now call w true w') w) :
    wp (withActive f) (fun _ w' => Effect env now call w false w') (fun _ w' => Effect env now call w true w') w := by
  unfold withActive
  rw [wp_bind, wp_get]
  cases hactive : w.active with
  | none => exact .refused (Quiet.refl w)
  | some a => exact hf a hactive

theorem wp_serve (call : Call) :
    wp (serve env now call) (fun _ w' => Effect env now call w false w') (fun _ w' => Effect env now call w true w') w := by
  cases call with
  | runStart romSha1 connectionRef goal description tags => exact wp_runStart romSha1 connectionRef goal description tags
  | runResume runId => exact wp_runResume runId
  | runFinish status runId => exact wp_runFinish status runId
  | logMetric key value =>
    refine wp_withActive fun a hactive => ?_
    rw [wp_bind]
    exact wp_mono (wp_logMetric a.romSha1 a.runId now key value) (fun _ _ h => .appended hactive h)
      (fun _ _ h => .refused h)
  | logGate name kind passed evidenceRef detail caseRef =>
    show wp (parseGateKind kind >>= _) _ _ w
    rw [wp_bind]
    refine wp_mono (wp_parseGateKind kind) (fun kind w₁ h₁ => ?_) (fun _ w₁ h₁ => .refused (h₁ ▸ Quiet.refl w))
    subst h₁
    refine wp_withActive fun a hactive => ?_
    rw [wp_bind]
    exact wp_mono (wp_logGate a.romSha1 a.runId now name kind passed evidenceRef detail caseRef)
      (fun _ _ h => .appended hactive h) (fun _ _ h => .refused h)
  | logArtifact kind absent evidence =>
    refine wp_withActive fun a hactive => ?_
    cases absent with
    | some message => exact .refused (Quiet.refl w)
    | none =>
      show wp (logArtifact _ _ _ _ _ _ >>= _) _ _ w
      rw [wp_bind]
      exact wp_mono (wp_logArtifact a.romSha1 a.runId kind evidence none) (fun _ _ h => .appended hactive h)
        (fun _ _ h => .refused h)
  | setReproduction base movieRef =>
    refine wp_withActive fun a hactive => ?_
    rw [wp_bind]
    exact wp_mono (wp_setReproduction a.romSha1 a.runId base movieRef) (fun _ _ h => .reproduced rfl hactive h)
      (fun _ _ h => .refused h)
  | logIntervention op args atFrame atEvent frozenContext =>
    refine wp_withActive fun a hactive => ?_
    rw [wp_bind]
    refine wp_mono (wp_logIntervention a.romSha1 a.runId now atFrame atEvent frozenContext op _) (fun _ _ h => ?_)
      (fun _ _ h => .refused h)
    refine .appended hactive (h.mono ?_)
    rintro run run' ⟨i, hseq, -, rfl⟩
    exact ⟨i, hseq, rfl⟩
  | logFinding romSha1 claim evidenceRefs promoted =>
    show wp (get >>= _) _ _ w
    rw [wp_bind, wp_get]
    dsimp only
    cases hrom : romSha1.or (w.active.map ActiveRun.romSha1) with
    | none => exact .refused (Quiet.refl w)
    | some rom =>
      show wp (logFinding _ _ _ _ _ _ _ >>= _) _ _ w
      rw [wp_bind]
      refine wp_mono (wp_logFinding rom now claim _ evidenceRefs promoted) (fun id w₁ h₁ => ?_) (fun _ _ h => .refused h)
      obtain ⟨hruns, hactive, hstarted, habandoned, hminted, hfindings⟩ := h₁
      exact .found rfl hrom ⟨hruns, hactive, hstarted, habandoned, hminted⟩ hfindings

end tools

end Emucap.Track
