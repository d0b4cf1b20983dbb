import Emucap.Track.OpsSpec

/-!
# Reproduction status over the life of a run

The operations of `track/ops.rs` on one run, in any sequence and with any failures. A forced status is lost when it is
derived again from interventions without a `load_state`; `Respects` says that no step does that.
-/

namespace Emucap.Track

open Emucap.Lib

inductive RunOp where
  | create (now romSha1 : String) (goal description : Option String) (tags : List String) (connectionRef : Option String)
  | metric (now key : String) (value : UInt64)
  | gate (now name : String) (kind : GateKind) (passed : Option Bool) (evidenceRef detail caseRef : Option String)
  | artifact (kind : String) (evidence : Evidence) (metadata : Option Json)
  | intervention (now : String) (atFrame : Option ℕ) (atEvent : Option String) (frozenContext : Bool) (op : String)
      (args : Json)
  | reproduction (base movieRef : Option String)
  | savestateOnly
  | finding (now claim : String) (evidenceRefs : List String) (promoted : Bool)
  | finish (status : RunStatus) (now : String)

def RunOp.perform (env : Env) (key : String × String) : RunOp → TrackM Unit
  | .create now romSha1 goal description tags connectionRef => do
    let _ ← createRun env now romSha1 goal description tags connectionRef
  | .metric now name value => logMetric env key.1 key.2 now name value
  | .gate now name kind passed evidenceRef detail caseRef =>
    logGate env key.1 key.2 now name kind passed evidenceRef detail caseRef
  | .artifact kind evidence metadata => do
    let _ ← logArtifact env key.1 key.2 kind evidence metadata
  | .intervention now atFrame atEvent frozenContext op args =>
    logIntervention env key.1 key.2 now atFrame atEvent frozenContext op args
  | .reproduction base movieRef => setReproduction env key.1 key.2 base movieRef
  | .savestateOnly => markSavestateOnly env key.1 key.2
  | .finding now claim evidenceRefs promoted => do
    let _ ← logFinding env key.1 now claim (some key.2) evidenceRefs promoted
  | .finish status now => finishRun env key.1 key.2 status now

/-- The world after a sequence of operations, whether they fail or not. -/
def performAll (env : Env) (key : String × String) (ops : List RunOp) (w : World) : World :=
  ops.foldl (fun w op => after (op.perform env key) w) w

def storedStatus (key : String × String) (w : World) : Option ReproStatus :=
  (w.ledger.runs.find key).bind Run.reproStatus

/-- The operation derives the status from interventions to which it does not add a `load_state`. -/
def RunOp.derives : RunOp → Bool
  | .intervention _ _ _ _ op _ => op ≠ "load_state"
  | .reproduction _ _ => true
  | _ => false

/-- The step does not derive away a status that was forced: when it derives the status of a run that is
`savestate_only`, a `load_state` is among the interventions. -/
def Respects (key : String × String) (w : World) (op : RunOp) : Prop :=
  op.derives = true → ∀ run, w.ledger.runs.find key = some run → run.reproStatus = some .savestateOnly →
    ∃ i ∈ run.interventions, i.op = "load_state"

def AllRespect (env : Env) (key : String × String) (w : World) (ops : List RunOp) : Prop :=
  ∀ before op after, ops = before ++ op :: after → Respects key (performAll env key before w) op

/-! ## One operation -/

/-- How an operation can change the reproduction status of a run. -/
def StatusChange (op : RunOp) (run run' : Run) : Prop :=
  run'.key = run.key ∧
    (run'.reproStatus = run.reproStatus ∨ run'.reproStatus = some .savestateOnly ∨
      op.derives = true ∧ run'.reproStatus = some (deriveStatus run.interventions))

structure Kept (op : RunOp) (key : String × String) (w w' : World) : Prop where
  minted : w.minted ≤ w'.minted
  run : w'.ledger.runs.find key = w.ledger.runs.find key ∨
    ∃ run run', w.ledger.runs.find key = some run ∧ StatusChange op run run' ∧ w'.ledger.runs.find key = some run'

section

variable {env : Env} {key : String × String} {op : RunOp} {w w' : World}

theorem Quiet.kept (h : Quiet w w') : Kept op key w w' := ⟨h.minted, .inl (by rw [h.runs])⟩

theorem Rewrote.kept {C : Run → Run → Prop} (h : Rewrote env key C w w')
    (hC : ∀ run run', C run run' → StatusChange op run run') : Kept op key w w' := by
  obtain ⟨run, run', hfind, hchange, hwrote⟩ := h
  have hkey : (env.codec.run run').key = key := (hC run run' hchange).1.trans (Table.find_eq_some.mp hfind).2
  refine ⟨hwrote.minted, .inr ⟨run, env.codec.run run', hfind, hC run run' hchange, ?_⟩⟩
  rw [hwrote.runs, ← hkey]
  exact Table.find_put_self _ _

theorem Created.kept {run : Run} (hgen : Function.Injective env.gen) (hkey : ∃ n < w.minted, env.gen n = key.2)
    (h : Created env run w w') : Kept op key w w' := by
  obtain ⟨n, hn, hid⟩ := hkey
  obtain ⟨m, hm, hm', hrun⟩ := h.minted
  refine ⟨by omega, .inl ?_⟩
  rw [h.runs]
  refine Table.find_put_of_ne fun heq => ?_
  have hsame : env.gen n = env.gen m := by rw [hid, heq, ← hrun]; rfl
  have := hgen hsame
  omega

theorem deriveStatus_append_of_ne {is : List Intervention} {i : Intervention} (h : i.op ≠ "load_state") :
    deriveStatus (is ++ [i]) = deriveStatus is := by
  simp [deriveStatus, h]

theorem deriveStatus_append_load {is : List Intervention} {i : Intervention} (h : i.op = "load_state") :
    deriveStatus (is ++ [i]) = .savestateOnly := by
  simp [deriveStatus, h]

theorem deriveStatus_of_load {is : List Intervention} (h : ∃ i ∈ is, i.op = "load_state") :
    deriveStatus is = .savestateOnly := by
  simpa [deriveStatus] using h

theorem kept_perform (hgen : Function.Injective env.gen) (hkey : ∃ n < w.minted, env.gen n = key.2) :
    Kept op key w (after (op.perform env key) w) := by
  apply after_of_wp
  cases op with
  | create now romSha1 goal description tags connectionRef =>
    show wp (createRun _ _ _ _ _ _ _ >>= _) _ _ w
    rw [wp_bind]
    exact wp_mono (wp_createRun now romSha1 goal description tags connectionRef)
      (fun _ _ h => h.2.kept hgen hkey) (fun _ _ h => h.kept)
  | metric now name value =>
    refine wp_mono (wp_logMetric key.1 key.2 now name value) (fun _ _ h => h.kept ?_) (fun _ _ h => h.kept)
    rintro run run' ⟨m, rfl⟩
    exact ⟨rfl, .inl rfl⟩
  | gate now name kind passed evidenceRef detail caseRef =>
    refine wp_mono (wp_logGate key.1 key.2 now name kind passed evidenceRef detail caseRef)
      (fun _ _ h => h.kept ?_) (fun _ _ h => h.kept)
    rintro run run' ⟨g, rfl⟩
    exact ⟨rfl, .inl rfl⟩
  | artifact kind evidence metadata =>
    show wp (logArtifact _ _ _ _ _ _ >>= _) _ _ w
    rw [wp_bind]
    refine wp_mono (wp_logArtifact key.1 key.2 kind evidence metadata) (fun _ _ h => h.kept ?_) (fun _ _ h => h.kept)
    rintro run run' ⟨a, rfl⟩
    exact ⟨rfl, .inl rfl⟩
  | intervention now atFrame atEvent frozenContext name args =>
    refine wp_mono (wp_logIntervention key.1 key.2 now atFrame atEvent frozenContext name args)
      (fun _ _ h => h.kept ?_) (fun _ _ h => h.kept)
    rintro run run' ⟨i, -, hop, rfl⟩
    refine ⟨rfl, .inr ?_⟩
    by_cases hload : name = "load_state"
    · exact .inl (by rw [deriveStatus_append_load (hop.trans hload)])
    · exact .inr ⟨by simp [RunOp.derives, hload], by rw [deriveStatus_append_of_ne (hop ▸ hload)]⟩
  | reproduction base movieRef =>
    refine wp_mono (wp_setReproduction key.1 key.2 base movieRef) (fun _ _ h => h.kept ?_) (fun _ _ h => h.kept)
    rintro run run' ⟨base', movieRef', rfl⟩
    exact ⟨rfl, .inr (.inr ⟨rfl, rfl⟩)⟩
  | savestateOnly =>
    refine wp_mono (wp_markSavestateOnly key.1 key.2) (fun _ _ h => h.kept ?_) (fun _ _ h => h.kept)
    rintro run run' rfl
    exact ⟨rfl, .inr (.inl rfl)⟩
  | finding now claim evidenceRefs promoted =>
    show wp (logFinding _ _ _ _ _ _ _ >>= _) _ _ w
    rw [wp_bind]
    refine wp_mono (wp_logFinding key.1 now claim (some key.2) evidenceRefs promoted) (fun _ _ h => ?_) (fun _ _ h => h.kept)
    exact ⟨h.2.2.2.2.1, .inl (by rw [h.1])⟩
  | finish status now =>
    refine wp_mono (wp_finishRun key.1 key.2 status now) (fun _ _ h => h.kept ?_) (fun _ _ h => h.kept)
    rintro run run' rfl
    exact ⟨rfl, .inl rfl⟩

theorem Kept.savestateOnly (h : Kept op key w w') (hrespects : Respects key w op)
    (hstatus : storedStatus key w = some .savestateOnly) : storedStatus key w' = some .savestateOnly := by
  rcases h.run with hsame | ⟨run, run', hfind, hchange, hfind'⟩
  · rw [storedStatus, hsame]
    exact hstatus
  · have hrun : run.reproStatus = some .savestateOnly := by simpa [storedStatus, hfind] using hstatus
    have hafter : storedStatus key w' = run'.reproStatus := by simp [storedStatus, hfind']
    rw [hafter]
    rcases hchange.2 with hkept | hforced | ⟨hderives, hderived⟩
    · rw [hkept, hrun]
    · exact hforced
    · rw [hderived, deriveStatus_of_load (hrespects hderives run hfind hrun)]

/-! ## The life of a run -/

theorem performAll_append (before after : List RunOp) (w : World) :
    performAll env key (before ++ after) w = performAll env key after (performAll env key before w) :=
  List.foldl_append

theorem minted_performAll (hgen : Function.Injective env.gen) {w : World} (hkey : ∃ n < w.minted, env.gen n = key.2)
    (ops : List RunOp) : ∃ n < (performAll env key ops w).minted, env.gen n = key.2 := by
  induction ops generalizing w with
  | nil => exact hkey
  | cons op ops ih =>
    obtain ⟨n, hn, hid⟩ := hkey
    have hkept : Kept op key w (after (op.perform env key) w) := kept_perform hgen ⟨n, hn, hid⟩
    exact ih ⟨n, Nat.lt_of_lt_of_le hn hkept.minted, hid⟩

theorem savestateOnly_performAll (hgen : Function.Injective env.gen) {w : World}
    (hkey : ∃ n < w.minted, env.gen n = key.2) {ops : List RunOp} (hall : AllRespect env key w ops)
    (hstatus : storedStatus key w = some .savestateOnly) :
    storedStatus key (performAll env key ops w) = some .savestateOnly := by
  induction ops generalizing w with
  | nil => exact hstatus
  | cons op ops ih =>
    have hkept : Kept op key w (after (op.perform env key) w) := kept_perform hgen hkey
    obtain ⟨n, hn, hid⟩ := hkey
    refine ih ⟨n, Nat.lt_of_lt_of_le hn hkept.minted, hid⟩ ?_ (hkept.savestateOnly (hall [] op ops rfl) hstatus)
    intro before op' later hops
    exact hall (op :: before) op' later (by rw [hops]; rfl)

theorem AllRespect.nil {w : World} : AllRespect env key w [] := by
  intro before op after hops
  simp at hops

theorem AllRespect.cons {w : World} {op : RunOp} {ops : List RunOp} (hop : Respects key w op)
    (h : AllRespect env key (after (op.perform env key) w) ops) : AllRespect env key w (op :: ops) := by
  intro before op' later hops
  cases before with
  | nil =>
    obtain ⟨rfl, -⟩ := List.cons.inj hops
    exact hop
  | cons first before =>
    obtain ⟨rfl, hrest⟩ := List.cons.inj hops
    exact h before op' later hrest

theorem AllRespect.tail {w : World} {before later : List RunOp} (h : AllRespect env key w (before ++ later)) :
    AllRespect env key (performAll env key before w) later := by
  intro before' op after hlater
  rw [← performAll_append]
  exact h (before ++ before') op after (by rw [hlater, List.append_assoc])

/-- From the creation of a run on, and as long as no step derives a forced status away, a run that is
`savestate_only` stays so, whatever the operations are and whichever of them fail. -/
theorem savestateOnly_permanent (hgen : Function.Injective env.gen) {now romSha1 : String}
    {goal description : Option String} {tags : List String} {connectionRef : Option String} {w₀ w : World} {run : Run}
    (hcreate : createRun env now romSha1 goal description tags connectionRef w₀ = .ok run w)
    {before later : List RunOp} (hall : AllRespect env run.key w (before ++ later))
    (hstatus : storedStatus run.key (performAll env run.key before w) = some .savestateOnly) :
    storedStatus run.key (performAll env run.key (before ++ later) w) = some .savestateOnly := by
  have hcreated := wp_ok (wp_createRun now romSha1 goal description tags connectionRef) hcreate
  obtain ⟨n, -, hn, hid⟩ := hcreated.2.minted
  rw [performAll_append]
  exact savestateOnly_performAll hgen (minted_performAll hgen ⟨n, hn, hid.symm⟩ before) hall.tail hstatus

end

/-! ## A life -/

def bornWorld : World := after (createRun plainEnv "t0" "rom" none none [] none) emptyWorld

def bornRun : Run :=
  { formatVersion := 1, id := "a", romSha1 := "rom", goal := none, description := none, tags := []
    status := .running, startedAt := "t0", endedAt := none, agent := none, session := none
    connectionRef := none, reproBase := some "reset", reproMovieRef := none
    reproStatus := some .replayableWithInterventions, gates := [], metrics := [], artifacts := []
    interventions := [] }

theorem createRun_born : createRun plainEnv "t0" "rom" none none [] none emptyWorld = .ok bornRun bornWorld := by
  rfl

def loadState : RunOp := .intervention "t1" (some 60) none false "load_state" .null

theorem allRespect_load :
    AllRespect plainEnv bornRun.key bornWorld
      ([loadState] ++ [.reproduction (some "reset") none, .metric "t2" "hp" 7]) := by
  have hload : ((performAll plainEnv bornRun.key [loadState] bornWorld).ledger.runs.find bornRun.key).all
      (fun run => run.interventions.any fun i => i.op = "load_state") = true := by decide +kernel
  refine .cons (fun hderives => ?_) (.cons (fun _ run hfind _ => ?_) (.cons (fun hderives => ?_) .nil))
  · simp [RunOp.derives, loadState] at hderives
  · have hfind' : (performAll plainEnv bornRun.key [loadState] bornWorld).ledger.runs.find bornRun.key = some run := hfind
    rw [hfind'] at hload
    simpa using hload
  · simp [RunOp.derives] at hderives

/-- A run whose `load_state` was recorded stays `savestate_only`. -/
theorem savestateOnly_permanent_load :
    storedStatus bornRun.key (performAll plainEnv bornRun.key
      ([loadState] ++ [.reproduction (some "reset") none, .metric "t2" "hp" 7]) bornWorld) = some .savestateOnly :=
  savestateOnly_permanent plainEnv_injective createRun_born allRespect_load (by decide +kernel)

/-- A forced status is lost by the next `set_reproduction`, and by an intervention that loads no state. -/
theorem savestateOnly_lost :
    createRun plainEnv "t0" "rom" none none [] none emptyWorld = .ok bornRun bornWorld ∧
    storedStatus bornRun.key (performAll plainEnv bornRun.key [.savestateOnly] bornWorld) = some .savestateOnly ∧
    storedStatus bornRun.key (performAll plainEnv bornRun.key
      [.savestateOnly, .reproduction none (some "movie")] bornWorld) = some .replayableWithInterventions ∧
    storedStatus bornRun.key (performAll plainEnv bornRun.key
      [.savestateOnly, .intervention "t1" none none false "set_input" .null] bornWorld) =
        some .replayableWithInterventions := by
  refine ⟨createRun_born, ?_, ?_, ?_⟩ <;> decide +kernel

end Emucap.Track
