import Emucap.Track.OpsSpec

/-!
# The tracking server

The tools of `emucap-track-mcp.rs` that write, over the lifecycle functions of `track/mcp_ops.rs`. The
active run is kept in memory beside the ledger; a run that it supersedes is closed with the errors ignored,
and `abandoned` holds the runs whose closing failed until they are resumed.
-/

namespace Emucap.Track

open Emucap.Lib

/-! ## Lifecycle -/

def parseRunStatus : String → TrackM RunStatus
  | "done" => return .done
  | "aborted" => return .aborted
  | "error" => return .error
  | other => throw (.other "invalid_argument" ("unknown run status: " ++ other))

def parseGateKind : String → TrackM GateKind
  | "machine" => return .machine
  | "judgment" => return .judgment
  | other => throw (.other "invalid_argument" ("unknown gate kind: " ++ other))

def Run.unfinishedFor (connectionRef : String) (run : Run) : Bool :=
  run.status = .running ∧ run.connectionRef = some connectionRef

/-- `max_by` on the starting time: of several latest runs it gives the last. -/
def latestStarted : List Run → Option Run
  | [] => none
  | run :: runs => some (runs.foldl (fun x y => if y.startedAt < x.startedAt then x else y) run)

def Run.binding (run : Run) : ActiveRun := ⟨run.romSha1, run.id, run.connectionRef⟩

def findResumableRun (connectionRef romSha1 : String) : TrackM (Option ActiveRun) := do
  validateLedgerId "rom_sha1" romSha1
  let runs ← walkRunsLenient
  return (latestStarted (runs.filter fun run => run.unfinishedFor connectionRef ∧ run.romSha1 = romSha1)).map Run.binding

def RunStatus.debug : RunStatus → String
  | .running => "Running"
  | .done => "Done"
  | .aborted => "Aborted"
  | .error => "Error"

def resumeRunById (runId : String) : TrackM ActiveRun := do
  match ← findRunById runId with
  | none => throw (.other "run_not_found" ("run not found: " ++ runId))
  | some run =>
    if run.status ≠ .running then
      throw (.other "run_not_resumable" ("run " ++ runId ++ " has status " ++ run.status.debug ++
        " and cannot be resumed; only a running run can be rebound. Call run_start after a finished run."))
    return run.binding

def finishRunById (env : Env) (runId : String) (status : RunStatus) (now : String) : TrackM String := do
  match ← findRunById runId with
  | none => throw (.other "run_not_found" ("run not found: " ++ runId))
  | some run =>
    finishRun env run.romSha1 run.id status now
    return run.id

/-- The runs to close before a run is created, found before anything is superseded. -/
def prepareStartRun (romSha1 : String) (connectionRef : Option String) : TrackM (List (String × String)) := do
  validateLedgerId "rom_sha1" romSha1
  match connectionRef with
  | none => return []
  | some connectionRef =>
    match ← attempt walkRuns with
    | .ok runs => return (runs.filter (Run.unfinishedFor connectionRef)).map Run.key
    | .error (.track (.resourceLimit text)) => throw (.track (.resourceLimit text))
    | .error _ => return []

def closeStale (env : Env) (now : String) : List (String × String) → TrackM Unit
  | [] => pure ()
  | (romSha1, runId) :: stale => do
    match ← attempt (finishRun env romSha1 runId .aborted now) with
    | .ok _ => closeStale env now stale
    | .error _ => pure ()

/-! ## The tools -/

inductive Call where
  | runStart (romSha1 : String) (connectionRef goal description : Option String) (tags : List String)
  | runResume (runId : String)
  | runFinish (status runId : Option String)
  | logMetric (key : String) (value : UInt64)
  | logGate (name kind : String) (passed : Option Bool) (evidenceRef detail caseRef : Option String)
  | logArtifact (kind : String) (absent : Option String) (evidence : Evidence)
  | setReproduction (base movieRef : Option String)
  | logIntervention (op : String) (args : Option Json) (atFrame : Option ℕ) (atEvent : Option String)
      (frozenContext : Bool)
  | logFinding (romSha1 : Option String) (claim : String) (evidenceRefs : List String) (promoted : Bool)

/-- The replies, without the path of the ledger. -/
inductive Reply where
  | started (runId romSha1 : String)
  | resumed (runId romSha1 : String) (note : Option String)
  | finished (runId : String)
  | ok
  | artifact (id : String)
  | finding (id : String)
  deriving DecidableEq

def resumeNote : String :=
  "Resumed the existing run. This call's goal, description, and tags were ignored so the stored metadata remains " ++
    "unchanged. Finish it and call run_start to begin a new experiment with new metadata."

/-- The run that gives way is closed as well as it can be. -/
def supersede (env : Env) (now : String) (prev : ActiveRun) : TrackM Unit := do
  match ← attempt (finishRun env prev.romSha1 prev.runId .aborted now) with
  | .ok _ => pure ()
  | .error _ => modify fun w => { w with abandoned := prev.runId :: w.abandoned }

def supersedeOther (env : Env) (now : String) (binding : ActiveRun) : Option ActiveRun → TrackM Unit
  | some prev => if prev.runId ≠ binding.runId then supersede env now prev else pure ()
  | none => pure ()

def rebindActive (env : Env) (now : String) (binding : ActiveRun) (callerSuppliedMeta : Bool) : TrackM Reply := do
  let w ← get
  supersedeOther env now binding w.active
  modify fun w =>
    { w with active := some binding, abandoned := w.abandoned.filter fun id => id ≠ binding.runId }
  return .resumed binding.runId binding.romSha1 (if callerSuppliedMeta then some resumeNote else none)

/-- The run that `run_start` takes up again; only a scan over its budget is an error. -/
def resumable (romSha1 : String) : Option String → TrackM (Option ActiveRun)
  | none => return none
  | some connectionRef => do
    match ← attempt (findResumableRun connectionRef romSha1) with
    | .ok binding => return binding
    | .error e => if e.code = "resource_limit" then throw e else return none

def supersedeTaken (env : Env) (now : String) : Option ActiveRun → TrackM Unit
  | some prev => supersede env now prev
  | none => pure ()

def takeActive (env : Env) (now : String) : TrackM Unit := do
  let w ← get
  modify fun w => { w with active := none }
  supersedeTaken env now w.active

def startNew (env : Env) (now romSha1 : String) (connectionRef goal description : Option String) (tags : List String) :
    TrackM Reply := do
  let stale ← prepareStartRun romSha1 connectionRef
  takeActive env now
  closeStale env now stale
  let run ← createRun env now romSha1 goal description tags connectionRef
  modify fun w => { w with active := some ⟨romSha1, run.id, connectionRef⟩ }
  return .started run.id run.romSha1

def runStart (env : Env) (now romSha1 : String) (connectionRef goal description : Option String) (tags : List String) :
    TrackM Reply := do
  match ← resumable romSha1 connectionRef with
  | some binding => rebindActive env now binding (goal.isSome || description.isSome || !tags.isEmpty)
  | none => startNew env now romSha1 connectionRef goal description tags

def runResume (env : Env) (now runId : String) : TrackM Reply := do
  let binding ← resumeRunById runId
  rebindActive env now binding false

def noActiveRun : ToolError := .other "tracking_error" "no active run; call run_start or run_resume first"

def runFinish (env : Env) (now : String) (status runId : Option String) : TrackM Reply := do
  let status ← parseRunStatus (status.getD "done")
  match runId with
  | some runId =>
    let id ← finishRunById env runId status now
    modify fun w => { w with active := w.active.filter fun a => a.runId ≠ id }
    return .finished id
  | none =>
    match (← get).active with
    | none => throw (.other "tracking_error"
        "no active run; call run_start first or provide run_id to finish a stored run")
    | some a =>
      finishRun env a.romSha1 a.runId status now
      modify fun w => { w with active := none }
      return .finished a.runId

def withActive (f : ActiveRun → TrackM Reply) : TrackM Reply := do
  match (← get).active with
  | none => throw noActiveRun
  | some a => f a

def serve (env : Env) (now : String) : Call → TrackM Reply
  | .runStart romSha1 connectionRef goal description tags =>
    runStart env now romSha1 connectionRef goal description tags
  | .runResume runId => runResume env now runId
  | .runFinish status runId => runFinish env now status runId
  | .logMetric key value => withActive fun a => do
    logMetric env a.romSha1 a.runId now key value
    return .ok
  | .logGate name kind passed evidenceRef detail caseRef => do
    let kind ← parseGateKind kind
    withActive fun a => do
      logGate env a.romSha1 a.runId now name kind passed evidenceRef detail caseRef
      return .ok
  | .logArtifact kind absent evidence => withActive fun a => do
    match absent with
    | some message => throw (.other "artifact_not_found" message)
    | none =>
      let id ← logArtifact env a.romSha1 a.runId kind evidence none
      return .artifact id
  | .setReproduction base movieRef => withActive fun a => do
    setReproduction env a.romSha1 a.runId base movieRef
    return .ok
  | .logIntervention op args atFrame atEvent frozenContext => withActive fun a => do
    logIntervention env a.romSha1 a.runId now atFrame atEvent frozenContext op (args.getD .null)
    return .ok
  | .logFinding romSha1 claim evidenceRefs promoted => do
    let active := (← get).active
    match romSha1.or (active.map ActiveRun.romSha1) with
    | none => throw (.other "tracking_error" "rom_sha1 was omitted and there is no active run")
    | some romSha1 =>
      let id ← logFinding env romSha1 now claim (active.map ActiveRun.runId) evidenceRefs promoted
      return .finding id

def serveAll (env : Env) (calls : List (String × Call)) (w : World) : World :=
  calls.foldl (fun w c => after (serve env c.1 c.2) w) w

end Emucap.Track
