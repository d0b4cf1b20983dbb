import Emucap.Lib.Metered
import Emucap.Track.Ops

/-!
# Scanning a ledger

The lenient walks of `track/store.rs` over the directories of a ledger, with the budget of `track/budget.rs`: a record
that cannot be loaded is skipped and counted; a symlink, or a directory that cannot be listed, ends the walk.
-/

namespace Emucap.Track

open Emucap.Lib Emucap.Lib.Metered

/-! ## The budget -/

inductive Resource where
  | entries
  | records
  | bytes
  | elements
  deriving DecidableEq

def scanLimit : Resource → ℕ
  | .entries => 65536
  | .records => 8192
  | .bytes => 32 * 1024 * 1024
  | .elements => 262144

def Resource.name : Resource → String
  | .entries => "directory entries"
  | .records => "candidate records"
  | .bytes => "input bytes"
  | .elements => "record elements"

def resourceLimit (maximum : ℕ) (resource : String) : TrackError :=
  .resourceLimit ("tracking operation exceeds " ++ toString maximum ++ " " ++ resource ++
    "; use direct record IDs or partition the ledger")

def limitOf (r : Resource) : TrackError := resourceLimit (scanLimit r) r.name

abbrev ScanM := Metered Resource TrackError

def maxRecordBytes : ℕ := 16 * 1024 * 1024

/-! ## Directories -/

/-- What stands where a record is expected: a symlink, a file that cannot be opened, or a file of some size that the
JSON library reads as a record or not. -/
inductive RecordFile (α : Type) where
  | symlink
  | unreadable (size : ℕ)
  | bytes (size : ℕ) (parsed : Option α)

inductive Member (α : Type) where
  | absent
  | other
  | blocked (e : TrackError)
  | file (file : RecordFile α)

inductive EntryKind (α : Type) where
  | symlink
  | other
  | dir (contents : α)

structure Entry (α : Type) where
  name : Option String
  kind : EntryKind α

/-- A directory of the ledger: it is not there, it cannot be listed or is no directory, or it has entries. -/
inductive Dir (α : Type) where
  | absent
  | obstructed (e : TrackError)
  | listing (entries : List α)

def Dir.entries {α : Type} : Dir α → List α
  | .listing entries => entries
  | _ => []

structure RomDir where
  romJson : Member Rom
  runs : Dir (Entry (Member Run))

/-- An entry of `findings`. A directory is `none`. -/
structure FindingEntry where
  stem : Option String
  json : Bool
  file : Option (RecordFile Finding)

/-- A ledger as the file system shows it. The names in one directory differ. -/
structure LedgerTree where
  roms : Dir (Entry RomDir)
  findings : Dir FindingEntry
  romNames : (roms.entries.filterMap Entry.name).Nodup
  findingNames : (findings.entries.filterMap fun e => if e.json then e.stem else none).Nodup

structure Candidate (ι α : Type) where
  path : Option ι
  file : RecordFile α

/-! ## Finding the records -/

def romSymlink : TrackError := .corrupt "ROM ledger entry is a symlink"

def runSymlink : TrackError := .corrupt "run ledger entry is a symlink"

def memberCandidate {ι α : Type} (path : Option ι) : Member α → ScanM (List (Candidate ι α))
  | .absent | .other => return []
  | .blocked e => throw e
  | .file file => do
    charge limitOf .records 1
    return [⟨path, file⟩]

/-- An entry that should be a directory; a symlink is an error. -/
def inDirectory {α β : Type} (symlink : TrackError) (f : α → ScanM (List β)) : EntryKind α → ScanM (List β)
  | .symlink => throw symlink
  | .other => return []
  | .dir contents => f contents

def runEntryPaths (rom : Option String) (entry : Entry (Member Run)) :
    ScanM (List (Candidate (String × String) Run)) := do
  charge limitOf .entries 1
  inDirectory runSymlink (memberCandidate (rom.bind fun rom => entry.name.map fun run => (rom, run))) entry.kind

def listed {α β : Type} (f : α → ScanM (List β)) : Dir α → ScanM (List β)
  | .absent => return []
  | .obstructed e => throw e
  | .listing entries => collect f entries

def romEntryRunPaths (entry : Entry RomDir) : ScanM (List (Candidate (String × String) Run)) := do
  charge limitOf .entries 1
  inDirectory romSymlink (fun rom => listed (runEntryPaths entry.name) rom.runs) entry.kind

def runJsonPaths (ledger : LedgerTree) : ScanM (List (Candidate (String × String) Run)) :=
  listed romEntryRunPaths ledger.roms

def romEntryPaths (entry : Entry RomDir) : ScanM (List (Candidate String Rom)) := do
  charge limitOf .entries 1
  inDirectory romSymlink (fun rom => memberCandidate entry.name rom.romJson) entry.kind

def romJsonPaths (ledger : LedgerTree) : ScanM (List (Candidate String Rom)) := listed romEntryPaths ledger.roms

def findingEntryPaths (entry : FindingEntry) : ScanM (List (Candidate String Finding)) := do
  charge limitOf .entries 1
  match entry.json, entry.file with
  | true, some file => do
    charge limitOf .records 1
    return [⟨entry.stem, file⟩]
  | _, _ => return []

def findingJsonPaths (ledger : LedgerTree) : ScanM (List (Candidate String Finding)) :=
  listed findingEntryPaths ledger.findings

/-! ## Loading them -/

def readJson {α : Type} : RecordFile α → ScanM α
  | .symlink => throw (.corrupt "ledger member is not a regular file")
  | .unreadable size =>
    if maxRecordBytes < size then throw (.tooLarge "ledger JSON exceeds 16777216 bytes")
    else do
      available limitOf .bytes size
      throw (.io false "cannot be opened")
  | .bytes size parsed =>
    if maxRecordBytes < size then throw (.tooLarge "ledger JSON exceeds 16777216 bytes")
    else do
      available limitOf .bytes size
      charge limitOf .bytes size
      match parsed with
      | none => throw (.parse "failed to parse JSON")
      | some value => return value

def validLedgerId (value : String) : Bool := isHyphenatedAsciiId value maxLedgerIdBytes

def chargeElements (counts : List ℕ) : ScanM Unit := do
  let _ ← collect (fun n => do
    charge limitOf .elements n
    return ([] : List Unit)) counts

def identified {α : Type} (same : Bool) (text : String) (value : α) : ScanM α :=
  if same then return value else throw (.corrupt text)

def runIdentityFromPath : Option (String × String) → ScanM (String × String)
  | none => throw (.corrupt "run record path is not portable UTF-8")
  | some key =>
    identified (validLedgerId key.1 ∧ validLedgerId key.2) "run record path contains an invalid stored identity" key

def Run.counts (run : Run) : List ℕ :=
  [run.tags.length, run.gates.length, run.metrics.length, run.artifacts.length, run.interventions.length]

def readRunBudgeted (c : Candidate (String × String) Run) : ScanM Run := do
  let key ← runIdentityFromPath c.path
  let run ← readJson c.file
  chargeElements run.counts
  identified (run.key = key ∧ validLedgerId run.romSha1 ∧ validLedgerId run.id) "run identity does not match" run

def romIdentityFromPath : Option String → ScanM String
  | none => throw (.corrupt "ROM record path is not portable UTF-8")
  | some rom => identified (validLedgerId rom) "ROM record path contains an invalid stored identity" rom

def readRomBudgeted (c : Candidate String Rom) : ScanM Rom := do
  let sha1 ← romIdentityFromPath c.path
  let rom ← readJson c.file
  identified (rom.sha1 = sha1 ∧ validLedgerId rom.sha1) "rom identity does not match" rom

def findingStem : Option String → ScanM String
  | none => throw (.corrupt "finding file name is not portable UTF-8")
  | some stem => return stem

def readFindingBudgeted (c : Candidate String Finding) : ScanM Finding := do
  let finding ← readJson c.file
  chargeElements [finding.evidenceRefs.length]
  let expected ← findingStem c.path
  identified (finding.id = expected ∧ validLedgerId finding.id ∧ validLedgerId finding.romSha1 ∧
    finding.runId.all validLedgerId) "finding identity does not match" finding

/-- One record of a lenient walk: only a budget that is used up is an error. -/
def lenient {α : Type} (load : ScanM α) : ScanM (Option α) := do
  match ← attempt load with
  | .ok value => return some value
  | .error (.resourceLimit text) => throw (.resourceLimit text)
  | .error _ => return none

/-- `load_lenient`: the records that load and the number of those that do not. -/
def loadLenient {ι α : Type} (load : Candidate ι α → ScanM α) : List (Candidate ι α) → ScanM (List α × ℕ)
  | [] => return ([], 0)
  | c :: cs => do
    let first ← lenient (load c)
    let (values, skipped) ← loadLenient load cs
    match first with
    | some value => return (value :: values, skipped)
    | none => return (values, skipped + 1)

def walkRunsBudgeted (ledger : LedgerTree) : ScanM (List Run × ℕ) := do
  let paths ← runJsonPaths ledger
  loadLenient readRunBudgeted paths

def walkRomsBudgeted (ledger : LedgerTree) : ScanM (List Rom × ℕ) := do
  let paths ← romJsonPaths ledger
  loadLenient readRomBudgeted paths

def walkFindingsBudgeted (ledger : LedgerTree) : ScanM (List Finding × ℕ) := do
  let paths ← findingJsonPaths ledger
  loadLenient readFindingBudgeted paths

structure Scanned where
  runs : List Run
  roms : List Rom
  findings : List Finding
  skipped : ℕ

/-- The three walks of `reindex_lenient`, from one budget. -/
def scan (ledger : LedgerTree) : ScanM Scanned := do
  let (runs, skippedRuns) ← walkRunsBudgeted ledger
  let (roms, skippedRoms) ← walkRomsBudgeted ledger
  let (findings, skippedFindings) ← walkFindingsBudgeted ledger
  return ⟨runs, roms, findings, skippedRuns + skippedRoms + skippedFindings⟩

end Emucap.Track
