import Emucap.Lib.Checked
import Emucap.Lib.JsonText
import Emucap.Track.Scan
import Mathlib.Data.List.Sort
import Mathlib.Algebra.GroupWithZero.Nat

/-!
# The index of a ledger and its queries

`track/index.rs` and `track/query.rs`: the index is built anew from the records of a scan, in one transaction, and
asked for runs. A table is the list of its primary keys, with the columns that a query reads for the table of runs.
An insertion fails on a key that the table has.
-/

namespace Emucap.Track

open Emucap.Lib

inductive IndexError where
  | sqlite (text : String)
  | track (e : TrackError)
  | integerOutOfRange (field : String) (value : ℕ)
  deriving DecidableEq

def IndexError.tool : IndexError → ToolError
  | .track e => .track e
  | .sqlite text => .other "tracking_io_error" ("tracking index error: " ++ text)
  | .integerOutOfRange field value => .other "ledger_corrupt"
      ("tracking value " ++ field ++ " is outside the supported range: " ++ toString value)

structure IndexedRun where
  id : String
  romSha1 : String
  goal : Option String
  status : String
  startedAt : String
  reproStatus : Option String
  deriving DecidableEq

structure Index where
  roms : List String
  runs : List IndexedRun
  gates : List String
  metrics : List String
  artifacts : List String
  interventions : List String
  findings : List String
  deriving DecidableEq

def Index.empty : Index := ⟨[], [], [], [], [], [], []⟩

/-- The names that the records and the index have for a status. -/
def RunStatus.text : RunStatus → String
  | .running => "running"
  | .done => "done"
  | .aborted => "aborted"
  | .error => "error"

def ReproStatus.text : ReproStatus → String
  | .clean => "clean"
  | .replayableWithInterventions => "replayable_with_interventions"
  | .savestateOnly => "savestate_only"

def Run.indexed (run : Run) : IndexedRun :=
  ⟨run.id, run.romSha1, run.goal, run.status.text, run.startedAt, run.reproStatus.map ReproStatus.text⟩

/-! ## Building the index -/

def uniqueFailed (table : String) : IndexError := .sqlite ("UNIQUE constraint failed: " ++ table)

def insertRows {α : Type} (table : String) (key : α → String) (check : α → Except IndexError Unit) :
    List α → List String → Except IndexError (List String)
  | [], keys => .ok keys
  | x :: xs, keys => do
    check x
    require (key x ∉ keys) (uniqueFailed table)
    insertRows table key check xs (keys ++ [key x])

def storable {α : Type} (_ : α) : Except IndexError Unit := .ok ()

def toI64 (field : String) (value : ℕ) : Except IndexError Unit :=
  require (value < 2 ^ 63) (.integerOutOfRange field value)

def interventionStorable (i : Intervention) : Except IndexError Unit := do
  toI64 "seq" i.seq
  match i.atFrame with
  | none => .ok ()
  | some frame => toI64 "at_frame" frame

/-- Tags are inserted where they are new and are never read back, so they have no table here. -/
def indexRun (index : Index) (run : Run) : Except IndexError Index := do
  require (run.id ∉ index.runs.map IndexedRun.id) (uniqueFailed "run.id")
  let gates ← insertRows "gate.id" Gate.id storable run.gates index.gates
  let metrics ← insertRows "metric.id" Metric.id storable run.metrics index.metrics
  let artifacts ← insertRows "artifact.id" Artifact.id storable run.artifacts index.artifacts
  let interventions ← insertRows "intervention.id" Intervention.id interventionStorable run.interventions
    index.interventions
  .ok { index with runs := index.runs ++ [run.indexed], gates, metrics, artifacts, interventions }

def indexRuns : List Run → Index → Except IndexError Index
  | [], index => .ok index
  | run :: runs, index => do
    let index ← indexRun index run
    indexRuns runs index

def reindexFrom (s : Scanned) : Except IndexError Index := do
  let roms ← insertRows "rom.sha1" Rom.sha1 storable s.roms []
  let index ← indexRuns s.runs { Index.empty with roms }
  let findings ← insertRows "finding.id" Finding.id storable s.findings []
  .ok { index with findings }

/-! ## Asking it -/

structure RunFilter where
  romSha1 : Option String
  goal : Option String
  status : Option String

structure RunRow where
  id : String
  romSha1 : String
  goal : Option String
  status : String
  reproStatus : Option String
  deriving DecidableEq

def IndexedRun.row (run : IndexedRun) : RunRow := ⟨run.id, run.romSha1, run.goal, run.status, run.reproStatus⟩

def RunFilter.accepts (filter : RunFilter) (run : IndexedRun) : Bool :=
  filter.romSha1.all (fun v => run.romSha1 = v) && filter.goal.all (fun v => run.goal = some v) &&
    filter.status.all (fun v => run.status = v)

/-- `ORDER BY started_at DESC, id DESC`. -/
def precedes (a b : IndexedRun) : Prop := b.startedAt < a.startedAt ∨ a.startedAt = b.startedAt ∧ b.id ≤ a.id

instance : DecidableRel precedes := fun a b =>
  inferInstanceAs (Decidable (b.startedAt < a.startedAt ∨ a.startedAt = b.startedAt ∧ b.id ≤ a.id))

def maxResultBytes : ℕ := 16 * 1024 * 1024

def nullable : Option String → Json
  | none => .null
  | some s => .str s

def RunRow.json (row : RunRow) : Json :=
  .obj [("id", .str row.id), ("rom_sha1", .str row.romSha1), ("goal", nullable row.goal), ("status", .str row.status),
    ("repro_status", nullable row.reproStatus)]

def RunRow.textBytes (row : RunRow) : ℕ :=
  row.id.utf8ByteSize + row.romSha1.utf8ByteSize + (row.goal.map String.utf8ByteSize).getD 0 + row.status.utf8ByteSize +
    (row.reproStatus.map String.utf8ByteSize).getD 0

def prettyBytes (document : Json) : ℕ := String.utf8Len (Json.pretty (fun _ => []) 0 document)

structure QueryResponse where
  runs : List RunRow
  skipped : ℕ
  deriving DecidableEq

def QueryResponse.json (response : QueryResponse) : Json :=
  .obj [("runs", .arr (response.runs.map RunRow.json)), ("skipped", .nat response.skipped)]

def resultTooLarge : TrackError := resourceLimit maxResultBytes "result bytes"

def checkResult (document : Json) : Except TrackError Unit :=
  require (prettyBytes document ≤ maxResultBytes) resultTooLarge

def selectRuns (filter : RunFilter) (runs : List IndexedRun) : List RunRow :=
  ((runs.filter filter.accepts).insertionSort precedes).map IndexedRun.row

/-- `query::query_runs`. -/
def queryIndex (index : Index) (filter : RunFilter) : Except TrackError (List RunRow) := do
  require (index.runs.length ≤ scanLimit .records) (resourceLimit (scanLimit .records) "result rows")
  let rows := selectRuns filter index.runs
  require ((rows.map RunRow.textBytes).sum ≤ maxResultBytes) resultTooLarge
  checkResult (.arr (rows.map RunRow.json))
  .ok rows

abbrev QueryM := EStateM ToolError Index

def orThrow {α ε : Type} (f : ε → ToolError) : Except ε α → QueryM α
  | .ok a => return a
  | .error e => throw (f e)

def scanOf (ledger : LedgerTree) : Except TrackError Scanned :=
  match scan ledger scanLimit with
  | .ok s _ => .ok s
  | .error e _ => .error e

def validateFilter (filter : RunFilter) : Except TrackError Unit :=
  require (filter.romSha1.all validLedgerId = true)
    (.invalid "rom_sha1 must contain 1..=128 ASCII alphanumeric characters separated only by single hyphens")

/-- `mcp_ops::query_runs`; `opened` is how opening the index went. A transaction that fails leaves the index. -/
def queryRuns (opened : Except ToolError Unit) (ledger : LedgerTree) (filter : RunFilter) : QueryM QueryResponse := do
  orThrow .track (validateFilter filter)
  orThrow id opened
  let s ← orThrow .track (scanOf ledger)
  let index ← orThrow IndexError.tool (reindexFrom s)
  set index
  let rows ← orThrow .track (queryIndex index filter)
  let response : QueryResponse := ⟨rows, s.skipped⟩
  orThrow .track (checkResult response.json)
  return response

end Emucap.Track
