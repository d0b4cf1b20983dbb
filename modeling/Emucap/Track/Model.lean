import Emucap.Lib.Json
import Emucap.Lib.Table
import Emucap.PathSafety

/-!
# Tracking records

The record types of `track/model.rs`, the ledger that holds them, and the rule by which the reproduction
status of a run follows from its interventions. A number of type `f64` is its bit pattern.
-/

namespace Emucap.Track

open Emucap.Lib

inductive RunStatus where
  | running
  | done
  | aborted
  | error
  deriving DecidableEq

inductive GateKind where
  | machine
  | judgment
  deriving DecidableEq

inductive ReproStatus where
  | clean
  | replayableWithInterventions
  | savestateOnly
  deriving DecidableEq

structure Rom where
  sha1 : String
  platform : String
  title : Option String
  firstSeen : String
  deriving DecidableEq

structure Gate where
  id : String
  name : String
  kind : GateKind
  passed : Option Bool
  evidenceRef : Option String
  detail : Option String
  caseRef : Option String
  createdAt : String
  deriving DecidableEq

structure Metric where
  id : String
  key : String
  value : UInt64
  createdAt : String
  deriving DecidableEq

structure Artifact where
  id : String
  kind : String
  path : String
  sha256 : String
  metadata : Option Json
  deriving DecidableEq

structure Intervention where
  id : String
  seq : ℕ
  atFrame : Option ℕ
  atEvent : Option String
  frozenContext : Bool
  op : String
  args : Json
  createdAt : String
  deriving DecidableEq

structure Run where
  formatVersion : ℕ
  id : String
  romSha1 : String
  goal : Option String
  description : Option String
  tags : List String
  status : RunStatus
  startedAt : String
  endedAt : Option String
  agent : Option String
  session : Option String
  connectionRef : Option String
  reproBase : Option String
  reproMovieRef : Option String
  reproStatus : Option ReproStatus
  gates : List Gate
  metrics : List Metric
  artifacts : List Artifact
  interventions : List Intervention
  deriving DecidableEq

structure Finding where
  id : String
  romSha1 : String
  runId : Option String
  claim : String
  evidenceRefs : List String
  promoted : Bool
  createdAt : String
  deriving DecidableEq

def runFormatVersion : ℕ := 1

def deriveStatus (interventions : List Intervention) : ReproStatus :=
  if interventions.any fun i => i.op = "load_state" then .savestateOnly else .replayableWithInterventions

/-! ## Reading a record back -/

/-- What the JSON library gives back for a number and for a document that it has written. The default
reader rounds some numbers. -/
structure Codec where
  number : UInt64 → UInt64
  document : Json → Json

namespace Codec

variable (codec : Codec)

def metric (m : Metric) : Metric := { m with value := codec.number m.value }

def artifact (a : Artifact) : Artifact := { a with metadata := a.metadata.map codec.document }

def intervention (i : Intervention) : Intervention := { i with args := codec.document i.args }

def run (r : Run) : Run :=
  { r with
    metrics := r.metrics.map codec.metric
    artifacts := r.artifacts.map codec.artifact
    interventions := r.interventions.map codec.intervention }

end Codec

/-! ## The ledger -/

def Run.key (r : Run) : String × String := (r.romSha1, r.id)

/-- The records of a ledger, each as reading its file gives it. -/
structure Ledger where
  runs : Table Run.key
  roms : Table Rom.sha1
  findings : Table Finding.id

end Emucap.Track
