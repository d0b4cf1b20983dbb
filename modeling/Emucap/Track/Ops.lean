import Emucap.Lib.Stateful
import Emucap.Track.Model

/-!
# Tracking operations

`track/store.rs`, `track/ops.rs` and the parts of `track/mcp_ops.rs` that write. A record is replaced by a rename, so
a store operation that fails leaves the ledger as it was. The answers of the file system are a list of choices.
-/

namespace Emucap.Track

open Emucap.Lib

/-! ## Errors -/

inductive TrackError where
  | io (notFound : Bool) (text : String)
  | parse (text : String)
  | serialize (text : String)
  | conflict (text : String)
  | invalid (text : String)
  | corrupt (text : String)
  | tooLarge (text : String)
  | resourceLimit (text : String)
  deriving DecidableEq

inductive ToolError where
  | track (e : TrackError)
  | runNotFound (text : String)
  | other (code message : String)
  deriving DecidableEq

def TrackError.code : TrackError → String
  | .resourceLimit _ => "resource_limit"
  | .invalid _ => "invalid_identifier"
  | .parse _ | .corrupt _ | .tooLarge _ => "ledger_corrupt"
  | .conflict _ => "tracking_conflict"
  | .io _ _ => "tracking_io_error"
  | .serialize _ => "tracking_error"

def ToolError.code : ToolError → String
  | .track e => e.code
  | .runNotFound _ => "run_not_found"
  | .other code _ => code

/-! ## The world of a server -/

structure Choice where
  fault : Option TrackError
  order : List Run → List Run
  readable : Run → Bool
  perm : ∀ runs, (order runs).Perm runs

def Choice.calm : Choice := ⟨none, id, fun _ => true, fun _ => .refl _⟩

def Choice.failing (e : TrackError) : Choice := ⟨some e, id, fun _ => true, fun _ => .refl _⟩

structure ActiveRun where
  romSha1 : String
  runId : String
  connectionRef : Option String
  deriving DecidableEq

/-- `minted` counts the identifiers that were generated, `started` lists the runs this server created and
`abandoned` those it replaced as the active run without being able to close them. -/
structure World where
  ledger : Ledger
  active : Option ActiveRun
  choices : List Choice
  minted : ℕ
  started : List String
  abandoned : List String

abbrev TrackM := EStateM ToolError World

/-- What the code is given from outside: the generator of identifiers and the JSON library. -/
structure Env where
  gen : ℕ → String
  codec : Codec

def nextChoice : TrackM Choice := do
  let w ← get
  match w.choices with
  | [] => return Choice.calm
  | c :: choices =>
    modify fun w => { w with choices }
    return c

def admitted : TrackM Choice := do
  let c ← nextChoice
  match c.fault with
  | some e => throw (.track e)
  | none => return c

/-! ## The store -/

def maxLedgerIdBytes : ℕ := 128

def validateLedgerId (field value : String) : TrackM Unit :=
  if isHyphenatedAsciiId value maxLedgerIdBytes then pure ()
  else throw (.track (.invalid (field ++ " must contain 1..=128 ASCII alphanumeric characters separated only by single hyphens")))

def loadRun (romSha1 runId : String) : TrackM Run := do
  validateLedgerId "rom_sha1" romSha1
  validateLedgerId "run_id" runId
  let _ ← admitted
  match (← get).ledger.runs.find (romSha1, runId) with
  | some run => return run
  | none => throw (.track (.io true "No such file or directory"))

def saveRun (env : Env) (run : Run) : TrackM Unit := do
  validateLedgerId "rom_sha1" run.romSha1
  validateLedgerId "run_id" run.id
  let _ ← admitted
  modify fun w => { w with ledger := { w.ledger with runs := w.ledger.runs.put (env.codec.run run) } }

def loadRom (sha1 : String) : TrackM Rom := do
  validateLedgerId "rom_sha1" sha1
  let _ ← admitted
  match (← get).ledger.roms.find sha1 with
  | some rom => return rom
  | none => throw (.track (.io true "No such file or directory"))

def saveRom (rom : Rom) : TrackM Unit := do
  validateLedgerId "rom_sha1" rom.sha1
  let _ ← admitted
  modify fun w => { w with ledger := { w.ledger with roms := w.ledger.roms.put rom } }

def validateRunRef : Option String → TrackM Unit
  | some runId => validateLedgerId "run_id" runId
  | none => pure ()

def saveFinding (finding : Finding) : TrackM Unit := do
  validateLedgerId "finding_id" finding.id
  validateLedgerId "rom_sha1" finding.romSha1
  validateRunRef finding.runId
  let _ ← admitted
  modify fun w => { w with ledger := { w.ledger with findings := w.ledger.findings.put finding } }

def walkRuns : TrackM (List Run) := do
  let c ← admitted
  return c.order (← get).ledger.runs.rows

/-- The second result, the records that could not be read, is not used here. -/
def walkRunsLenient : TrackM (List Run) := do
  let c ← admitted
  return (c.order (← get).ledger.runs.rows).filter c.readable

def findRunById (runId : String) : TrackM (Option Run) := do
  validateLedgerId "run_id" runId
  let c ← admitted
  match (c.order (← get).ledger.runs.rows).filter fun run => run.id = runId with
  | [] => return none
  | [run] => return some run
  | _ => throw (.track (.conflict
      ("duplicate run_id " ++ runId ++ " appears in multiple ROM directories; global uniqueness is violated")))

/-! ## Operations -/

def newId (env : Env) : TrackM String := do
  let w ← get
  modify fun w => { w with minted := w.minted + 1 }
  return env.gen w.minted

def load (romSha1 runId : String) : TrackM Run := do
  match ← attempt (loadRun romSha1 runId) with
  | .ok run => return run
  | .error (.track (.io true _)) => throw (.runNotFound ("run not found: " ++ romSha1 ++ "/" ++ runId))
  | .error e => throw e

/-- `rom.json` is written when there is none; what else is wrong with it is an error. -/
def ensureRom (now romSha1 : String) : TrackM Unit := do
  match ← attempt (loadRom romSha1) with
  | .ok _ => pure ()
  | .error (.track (.io true _)) => saveRom ⟨romSha1, "", none, now⟩
  | .error e => throw e

def createRun (env : Env) (now romSha1 : String) (goal description : Option String) (tags : List String)
    (connectionRef : Option String) : TrackM Run := do
  validateLedgerId "rom_sha1" romSha1
  ensureRom now romSha1
  let id ← newId env
  let run : Run :=
    { formatVersion := runFormatVersion, id, romSha1, goal, description, tags, status := .running
      startedAt := now, endedAt := none, agent := none, session := none, connectionRef
      reproBase := some "reset", reproMovieRef := none, reproStatus := some (deriveStatus [])
      gates := [], metrics := [], artifacts := [], interventions := [] }
  saveRun env run
  modify fun w => { w with started := id :: w.started }
  return run

/-- The common form of the operations that rewrite one run: it is read, changed and written. -/
def rewriteRun (env : Env) (romSha1 runId : String) (change : Run → TrackM Run) : TrackM Unit := do
  let run ← load romSha1 runId
  let run ← change run
  saveRun env run

def finishRun (env : Env) (romSha1 runId : String) (status : RunStatus) (now : String) : TrackM Unit :=
  rewriteRun env romSha1 runId fun run => return { run with status, endedAt := some now }

def logMetric (env : Env) (romSha1 runId now key : String) (value : UInt64) : TrackM Unit :=
  rewriteRun env romSha1 runId fun run => do
    let id ← newId env
    return { run with metrics := run.metrics ++ [⟨id, key, value, now⟩] }

def logGate (env : Env) (romSha1 runId now name : String) (kind : GateKind) (passed : Option Bool)
    (evidenceRef detail caseRef : Option String) : TrackM Unit :=
  rewriteRun env romSha1 runId fun run => do
    let id ← newId env
    return { run with gates := run.gates ++ [⟨id, name, kind, passed, evidenceRef, detail, caseRef, now⟩] }

/-- What becomes of the file of an artifact: it is not there, it is refused, or it has a digest and the
path under which it is stored. -/
inductive Evidence where
  | missing (message : String)
  | refused (e : TrackError)
  | hashed (path sha256 : String)

/-- `ops::log_artifact`, which reads the run before it opens the file. -/
def logArtifact (env : Env) (romSha1 runId kind : String) (evidence : Evidence) (metadata : Option Json) :
    TrackM String := do
  let run ← load romSha1 runId
  match evidence with
  | .missing text => throw (.track (.io true text))
  | .refused e => throw (.track e)
  | .hashed path sha256 =>
    let id ← newId env
    saveRun env { run with artifacts := run.artifacts ++ [⟨id, kind, path, sha256, metadata⟩] }
    return id

def setReproduction (env : Env) (romSha1 runId : String) (base movieRef : Option String) : TrackM Unit :=
  rewriteRun env romSha1 runId fun run =>
    return { run with
      reproBase := if base.isSome then base else run.reproBase
      reproMovieRef := if movieRef.isSome then movieRef else run.reproMovieRef
      reproStatus := some (deriveStatus run.interventions) }

def logFinding (env : Env) (romSha1 now claim : String) (runId : Option String) (evidenceRefs : List String)
    (promoted : Bool) : TrackM String := do
  let id ← newId env
  saveFinding ⟨id, romSha1, runId, claim, evidenceRefs, promoted, now⟩
  return id

def logIntervention (env : Env) (romSha1 runId now : String) (atFrame : Option ℕ) (atEvent : Option String)
    (frozenContext : Bool) (op : String) (args : Json) : TrackM Unit :=
  rewriteRun env romSha1 runId fun run => do
    let seq := run.interventions.length
    let id ← newId env
    let interventions := run.interventions ++ [⟨id, seq, atFrame, atEvent, frozenContext, op, args, now⟩]
    return { run with interventions, reproStatus := some (deriveStatus interventions) }

def markSavestateOnly (env : Env) (romSha1 runId : String) : TrackM Unit :=
  rewriteRun env romSha1 runId fun run => return { run with reproStatus := some .savestateOnly }

/-! ## A plain world -/

/-- Identifiers of growing length, and documents that are read back as they were written. -/
def plainEnv : Env := ⟨fun n => String.ofList (List.replicate (n + 1) 'a'), ⟨id, id⟩⟩

theorem plainEnv_injective : Function.Injective plainEnv.gen := by
  intro n m h
  have hlist : List.replicate (n + 1) 'a' = List.replicate (m + 1) 'a' := String.ofList_injective h
  simpa using congrArg List.length hlist

def emptyWorld : World := ⟨⟨.empty, .empty, .empty⟩, none, [], 0, [], []⟩

end Emucap.Track
