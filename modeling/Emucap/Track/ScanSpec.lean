import Emucap.Track.Scan
import Mathlib.Algebra.GroupWithZero.Nat

/-!
# What a scan finds

The records of a ledger without the walks: which there are, which of them load, what reading them costs, and when
nothing stands in the way of the walks (`LedgerTree.Clear`). Within the budget, a scan finds exactly these.
-/

namespace Emucap.Track

open Emucap.Lib Emucap.Lib.Metered

/-! ## Finding the records -/

section paths

variable {ι α β : Type}

def Member.candidates (path : Option ι) : Member α → List (Candidate ι α)
  | .file record => [⟨path, record⟩]
  | _ => []

def Member.Clear : Member α → Prop
  | .blocked _ => False
  | _ => True

def Member.cost : Member α → Resource → ℕ
  | .file _ => only .records 1
  | _ => free

theorem spendsWhen_memberCandidate (path : Option ι) (member : Member α) :
    SpendsWhen member.Clear (memberCandidate path member) member.cost (member.candidates path) := by
  cases member with
  | absent => exact (spends_pure []).when
  | other => exact (spends_pure []).when
  | blocked e => exact spendsWhen_throw e _ _
  | file record =>
    have h : Spends (memberCandidate path (.file record)) (both (only .records 1) free) (.ok [⟨path, record⟩]) :=
      (spends_charge limitOf .records 1).bind (spends_pure _)
    exact h.when

def EntryKind.candidates (contents : α → List β) : EntryKind α → List β
  | .dir a => contents a
  | _ => []

def EntryKind.Clear (clear : α → Prop) : EntryKind α → Prop
  | .symlink => False
  | .other => True
  | .dir a => clear a

def EntryKind.cost (contents : α → Resource → ℕ) : EntryKind α → Resource → ℕ
  | .dir a => contents a
  | _ => free

theorem spendsWhen_entry {e : TrackError} {f : α → ScanM (List β)} {clear : α → Prop} {cost : α → Resource → ℕ}
    {out : α → List β} (kind : EntryKind α) (hf : ∀ a, SpendsWhen (clear a) (f a) (cost a) (out a)) :
    SpendsWhen (kind.Clear clear) (charge limitOf .entries 1 >>= fun _ => inDirectory e f kind)
      (both (only .entries 1) (kind.cost cost)) (kind.candidates out) := by
  refine (spends_charge limitOf .entries 1).bind_when ?_
  cases kind with
  | symlink => exact spendsWhen_throw e _ _
  | other => exact (spends_pure []).when
  | dir a => exact hf a

def Dir.Clear (clear : α → Prop) : Dir α → Prop
  | .obstructed _ => False
  | d => ∀ e ∈ d.entries, clear e

theorem spendsWhen_listed {f : α → ScanM (List β)} {clear : α → Prop} {cost : α → Resource → ℕ} {out : α → List β}
    (hf : ∀ a, SpendsWhen (clear a) (f a) (cost a) (out a)) (dir : Dir α) :
    SpendsWhen (dir.Clear clear) (listed f dir) (total cost dir.entries) (dir.entries.flatMap out) := by
  cases dir with
  | absent =>
    have h : Dir.Clear clear (.absent : Dir α) ↔ True := by simp [Dir.Clear, Dir.entries]
    exact ⟨fun _ => spends_pure [], fun hnot => absurd (h.mpr trivial) hnot⟩
  | obstructed e => exact spendsWhen_throw e _ _
  | listing entries => exact spendsWhen_collect fun a _ => hf a

end paths

def runEntryCandidates (rom : Option String) (entry : Entry (Member Run)) : List (Candidate (String × String) Run) :=
  entry.kind.candidates (Member.candidates (rom.bind fun rom => entry.name.map fun run => (rom, run)))

def runEntryCost (entry : Entry (Member Run)) : Resource → ℕ :=
  both (only .entries 1) (entry.kind.cost Member.cost)

def RunEntryClear (entry : Entry (Member Run)) : Prop := entry.kind.Clear Member.Clear

def romEntryRunCandidates (entry : Entry RomDir) : List (Candidate (String × String) Run) :=
  entry.kind.candidates fun rom => rom.runs.entries.flatMap (runEntryCandidates entry.name)

def romEntryRunCost (entry : Entry RomDir) : Resource → ℕ :=
  both (only .entries 1) (entry.kind.cost fun rom => total runEntryCost rom.runs.entries)

def romEntryCandidates (entry : Entry RomDir) : List (Candidate String Rom) :=
  entry.kind.candidates fun rom => rom.romJson.candidates entry.name

def romEntryCost (entry : Entry RomDir) : Resource → ℕ :=
  both (only .entries 1) (entry.kind.cost fun rom => rom.romJson.cost)

def findingCandidates (entry : FindingEntry) : List (Candidate String Finding) :=
  match entry.json, entry.file with
  | true, some file => [⟨entry.stem, file⟩]
  | _, _ => []

def findingCost (entry : FindingEntry) : Resource → ℕ :=
  both (only .entries 1) (if entry.json ∧ entry.file.isSome then only .records 1 else free)

namespace LedgerTree

variable (ledger : LedgerTree)

def runCandidates : List (Candidate (String × String) Run) := ledger.roms.entries.flatMap romEntryRunCandidates

def romCandidates : List (Candidate String Rom) := ledger.roms.entries.flatMap romEntryCandidates

def findingCandidates : List (Candidate String Finding) := ledger.findings.entries.flatMap Track.findingCandidates

/-- Nothing stands in the way of the walks: no directory that cannot be listed, no symlink in the place of a directory
of a ROM or a run, no record whose entry cannot be looked up. -/
structure Clear : Prop where
  runs : ledger.roms.Clear fun entry => entry.kind.Clear fun rom => rom.runs.Clear RunEntryClear
  roms : ledger.roms.Clear fun entry => entry.kind.Clear fun rom => rom.romJson.Clear
  findings : ledger.findings.Clear fun _ => True

end LedgerTree

theorem spendsWhen_runJsonPaths (ledger : LedgerTree) :
    SpendsWhen (ledger.roms.Clear fun entry => entry.kind.Clear fun rom => rom.runs.Clear RunEntryClear)
      (runJsonPaths ledger) (total romEntryRunCost ledger.roms.entries) ledger.runCandidates := by
  refine spendsWhen_listed (fun entry => ?_) ledger.roms
  refine spendsWhen_entry _ fun rom => ?_
  refine spendsWhen_listed (fun run => ?_) rom.runs
  exact spendsWhen_entry _ fun member => spendsWhen_memberCandidate _ member

theorem spendsWhen_romJsonPaths (ledger : LedgerTree) :
    SpendsWhen (ledger.roms.Clear fun entry => entry.kind.Clear fun rom => rom.romJson.Clear)
      (romJsonPaths ledger) (total romEntryCost ledger.roms.entries) ledger.romCandidates := by
  refine spendsWhen_listed (fun entry => ?_) ledger.roms
  exact spendsWhen_entry _ fun rom => spendsWhen_memberCandidate _ rom.romJson

theorem spends_findingEntryPaths (entry : FindingEntry) :
    Spends (findingEntryPaths entry) (findingCost entry) (.ok (findingCandidates entry)) := by
  refine (spends_charge limitOf .entries 1).bind ?_
  obtain ⟨stem, json, file⟩ := entry
  cases json with
  | false => exact spends_pure []
  | true =>
    cases file with
    | none => exact spends_pure []
    | some record =>
      have h : Spends (charge limitOf .records 1 >>= fun _ => pure [(⟨stem, record⟩ : Candidate String Finding)])
          (both (only .records 1) free) (.ok [⟨stem, record⟩]) :=
        (spends_charge limitOf .records 1).bind (spends_pure _)
      exact h

theorem spendsWhen_findingJsonPaths (ledger : LedgerTree) :
    SpendsWhen (ledger.findings.Clear fun _ => True) (findingJsonPaths ledger)
      (total findingCost ledger.findings.entries) ledger.findingCandidates :=
  spendsWhen_listed (fun entry => (spends_findingEntryPaths entry).when) ledger.findings

/-! ## Loading them -/

def IsLimit : TrackError → Prop
  | .resourceLimit _ => True
  | _ => False

/-- Reading a record gives the value, or an error that is not one of the budget. -/
def Loads {α : Type} (x : ScanM α) (c : Resource → ℕ) (value : Option α) : Prop :=
  ∃ out : Except TrackError α, Spends x c out ∧ out.toOption = value ∧ ∀ e, out = .error e → ¬IsLimit e

section loads

variable {α β : Type} {x : ScanM α} {f : α → ScanM β} {c c' : Resource → ℕ} {a : α} {value : Option β}

theorem loads_of_spends (h : Spends x c (.ok a)) : Loads x c (some a) := ⟨.ok a, h, rfl, nofun⟩

theorem loads_throw {e : TrackError} (h : ¬IsLimit e) (c : Resource → ℕ) : Loads (throw e : ScanM α) c none :=
  ⟨.error e, (spends_throw e).mono fun _ => Nat.zero_le _, rfl, fun _ heq => Except.error.inj heq ▸ h⟩

theorem Loads.bind (hx : Loads x c (some a)) (hf : Loads (f a) c' value) : Loads (x >>= f) (both c c') value := by
  obtain ⟨out, hspends, hvalue, -⟩ := hx
  obtain ⟨out', hspends', hvalue', hlimit⟩ := hf
  cases out with
  | error e => cases hvalue
  | ok b =>
    obtain rfl := Option.some.inj hvalue
    exact ⟨out', hspends.bind hspends', hvalue', hlimit⟩

theorem Loads.bind_none (hx : Loads x c none) : Loads (x >>= f) (both c c') none := by
  obtain ⟨out, hspends, hvalue, hlimit⟩ := hx
  cases out with
  | ok b => cases hvalue
  | error e =>
    refine ⟨.error e, hspends.bind_error.mono fun r => Nat.le_add_right _ _, rfl, fun e' heq => ?_⟩
    exact Except.error.inj heq ▸ hlimit e rfl

theorem Loads.lenient {value : Option α} (h : Loads x c value) : Spends (lenient x) c (.ok value) := by
  obtain ⟨out, hspends, rfl, hlimit⟩ := h
  rw [← both_free c]
  refine hspends.attempt.bind ?_
  cases out with
  | ok a => exact spends_pure _
  | error e =>
    cases e with
    | resourceLimit text => exact absurd trivial (hlimit _ rfl)
    | io notFound text => exact spends_pure _
    | parse text => exact spends_pure _
    | serialize text => exact spends_pure _
    | conflict text => exact spends_pure _
    | invalid text => exact spends_pure _
    | corrupt text => exact spends_pure _
    | tooLarge text => exact spends_pure _

end loads

section files

variable {α : Type}

def RecordFile.value : RecordFile α → Option α
  | .bytes size parsed => if maxRecordBytes < size then none else parsed
  | _ => none

def RecordFile.cost : RecordFile α → Resource → ℕ
  | .symlink => free
  | .unreadable size | .bytes size _ => only .bytes size

theorem loads_readJson (file : RecordFile α) : Loads (readJson file) file.cost file.value := by
  cases file with
  | symlink => exact loads_throw id _
  | unreadable size =>
    rw [readJson]
    split_ifs
    · exact loads_throw id _
    · rw [RecordFile.cost, ← both_free (only Resource.bytes size)]
      exact (loads_of_spends (spends_available limitOf .bytes size)).bind (loads_throw id _)
  | bytes size parsed =>
    unfold readJson RecordFile.value
    dsimp only
    split_ifs
    · exact loads_throw id _
    · have hcharge : ∀ g : Unit → ScanM α, ∀ value, Loads (g ()) free value →
          Loads (available limitOf .bytes size >>= fun _ => charge limitOf .bytes size >>= g)
            (only .bytes size) value := by
        intro g value hg
        obtain ⟨out, hspends, hout⟩ := hg
        refine ⟨out, ?_, hout⟩
        have hpaid : Spends (charge limitOf .bytes size >>= g) (both (only .bytes size) free) out :=
          (spends_charge limitOf .bytes size).bind hspends
        exact hpaid.after_available (by simp [both, only, free])
      cases parsed with
      | none => exact hcharge _ _ (loads_throw id _)
      | some value => exact hcharge _ _ (loads_of_spends (spends_pure value))

theorem spends_chargeElements (counts : List ℕ) :
    Spends (chargeElements counts) (only .elements counts.sum) (.ok ()) := by
  have hcost : total (fun n => both (only Resource.elements n) free) counts = only .elements counts.sum := by
    funext r
    cases r <;> simp [total, both, only, free]
  have hitem (n : ℕ) : Spends (charge limitOf .elements n >>= fun _ => (pure [] : ScanM (List Unit)))
      (both (only .elements n) free) (.ok []) :=
    (spends_charge limitOf .elements n).bind (spends_pure [])
  have h := spends_collect fun n (_ : n ∈ counts) => hitem n
  rw [hcost] at h
  rw [← both_free (only Resource.elements counts.sum)]
  unfold chargeElements
  exact Spends.bind h (spends_pure ())

end files

/-! ## The records that load -/

/-- The run of a record: the file reads as a run whose identity is the one of its path. -/
def Candidate.run (c : Candidate (String × String) Run) : Option Run :=
  (c.path.filter fun key => validLedgerId key.1 ∧ validLedgerId key.2).bind fun key =>
    c.file.value.filter fun run => run.key = key ∧ validLedgerId run.romSha1 ∧ validLedgerId run.id

def Candidate.runCost (c : Candidate (String × String) Run) : Resource → ℕ :=
  both c.file.cost (only .elements ((c.file.value.map fun run => run.counts.sum).getD 0))

def Candidate.rom (c : Candidate String Rom) : Option Rom :=
  (c.path.filter validLedgerId).bind fun sha1 =>
    c.file.value.filter fun rom => rom.sha1 = sha1 ∧ validLedgerId rom.sha1

def Candidate.romCost (c : Candidate String Rom) : Resource → ℕ := c.file.cost

def Candidate.finding (c : Candidate String Finding) : Option Finding :=
  c.file.value.bind fun finding => c.path.bind fun id => (some finding).filter fun finding =>
    finding.id = id ∧ validLedgerId finding.id ∧ validLedgerId finding.romSha1 ∧ finding.runId.all validLedgerId

def Candidate.findingCost (c : Candidate String Finding) : Resource → ℕ :=
  both c.file.cost (only .elements ((c.file.value.map fun finding => finding.evidenceRefs.length).getD 0))

section records

variable {α β : Type}

theorem both_free_left {ρ : Type} (c : ρ → ℕ) : both free c = c := by
  funext r
  simp [both, free]

theorem loads_identified (same : Bool) (text : String) (a : α) :
    Loads (identified same text a) free ((some a).filter fun _ => same) := by
  cases same with
  | false => exact loads_throw id _
  | true => exact loads_of_spends (spends_pure a)

theorem Loads.bind_option {x : ScanM α} {f : α → ScanM β} {c c' : Resource → ℕ} {value : Option α} {g : α → Option β}
    (hx : Loads x c value) (hf : ∀ a, value = some a → Loads (f a) c' (g a)) :
    Loads (x >>= f) (both c c') (value.bind g) := by
  cases value with
  | none => exact hx.bind_none
  | some a => exact hx.bind (hf a rfl)

theorem loads_runIdentityFromPath (path : Option (String × String)) :
    Loads (runIdentityFromPath path) free (path.filter fun key => validLedgerId key.1 ∧ validLedgerId key.2) := by
  cases path with
  | none => exact loads_throw id _
  | some key => exact loads_identified _ _ key

theorem loads_romIdentityFromPath (path : Option String) :
    Loads (romIdentityFromPath path) free (path.filter validLedgerId) := by
  cases path with
  | none => exact loads_throw id _
  | some rom => exact loads_identified _ _ rom

theorem loads_readRunBudgeted (c : Candidate (String × String) Run) : Loads (readRunBudgeted c) c.runCost c.run := by
  unfold readRunBudgeted Candidate.run
  rw [← both_free_left c.runCost]
  refine (loads_runIdentityFromPath c.path).bind_option fun key _ => ?_
  have hread := loads_readJson c.file
  have hfilter : (c.file.value.filter fun run => run.key = key ∧ validLedgerId run.romSha1 ∧ validLedgerId run.id) =
      c.file.value.bind fun run => (some run).filter fun run =>
        run.key = key ∧ validLedgerId run.romSha1 ∧ validLedgerId run.id := by
    cases c.file.value <;> rfl
  rw [hfilter]
  refine hread.bind_option fun run hvalue => ?_
  rw [hvalue, Option.map_some, Option.getD_some, ← both_free (only Resource.elements run.counts.sum)]
  exact (loads_of_spends (spends_chargeElements run.counts)).bind (loads_identified _ _ run)

theorem loads_readRomBudgeted (c : Candidate String Rom) : Loads (readRomBudgeted c) c.romCost c.rom := by
  unfold readRomBudgeted Candidate.rom
  rw [← both_free_left c.romCost]
  refine (loads_romIdentityFromPath c.path).bind_option fun sha1 _ => ?_
  have hfilter : (c.file.value.filter fun rom => rom.sha1 = sha1 ∧ validLedgerId rom.sha1) =
      c.file.value.bind fun rom => (some rom).filter fun rom => rom.sha1 = sha1 ∧ validLedgerId rom.sha1 := by
    cases c.file.value <;> rfl
  rw [hfilter, ← both_free c.romCost]
  exact (loads_readJson c.file).bind_option fun rom _ => loads_identified _ _ rom

theorem loads_findingStem (path : Option String) : Loads (findingStem path) free path := by
  cases path with
  | none => exact loads_throw id _
  | some stem => exact loads_of_spends (spends_pure stem)

theorem loads_readFindingBudgeted (c : Candidate String Finding) :
    Loads (readFindingBudgeted c) c.findingCost c.finding := by
  unfold readFindingBudgeted Candidate.finding
  refine (loads_readJson c.file).bind_option fun finding hvalue => ?_
  have hcount : [finding.evidenceRefs.length].sum = finding.evidenceRefs.length := by simp
  rw [hvalue, Option.map_some, Option.getD_some, ← both_free (only Resource.elements finding.evidenceRefs.length), ← hcount]
  refine (loads_of_spends (spends_chargeElements _)).bind ?_
  rw [← both_free (free : Resource → ℕ)]
  exact (loads_findingStem c.path).bind_option fun stem _ => loads_identified _ _ finding

theorem spends_loadLenient {ι : Type} {load : Candidate ι α → ScanM α} {cost : Candidate ι α → Resource → ℕ}
    {value : Candidate ι α → Option α} (h : ∀ c, Loads (load c) (cost c) (value c)) (cs : List (Candidate ι α)) :
    Spends (loadLenient load cs) (total cost cs)
      (.ok (cs.filterMap value, cs.countP fun c => (value c).isNone)) := by
  induction cs with
  | nil => exact spends_pure _
  | cons c cs ih =>
    rw [total_cons, ← both_free (total cost cs)]
    refine (h c).lenient.bind (ih.bind ?_)
    cases hvalue : value c with
    | none =>
      rw [List.filterMap_cons_none hvalue, List.countP_cons_of_pos (by rw [hvalue]; rfl)]
      exact spends_pure _
    | some v =>
      rw [List.filterMap_cons_some hvalue, List.countP_cons_of_neg (by rw [hvalue]; simp)]
      exact spends_pure _

end records

/-! ## A scan -/

namespace LedgerTree

variable (ledger : LedgerTree)

def loadableRuns : List Run := ledger.runCandidates.filterMap Candidate.run

def loadableRoms : List Rom := ledger.romCandidates.filterMap Candidate.rom

def loadableFindings : List Finding := ledger.findingCandidates.filterMap Candidate.finding

def unloadable : ℕ :=
  ledger.runCandidates.countP (fun c => c.run.isNone) + ledger.romCandidates.countP (fun c => c.rom.isNone) +
    ledger.findingCandidates.countP (fun c => c.finding.isNone)

/-- What a scan takes from the budget: the entries it lists, the records it finds, the bytes it reads and the elements
of the lists in the records. -/
def cost : Resource → ℕ :=
  both (both (total romEntryRunCost ledger.roms.entries) (total Candidate.runCost ledger.runCandidates))
    (both (both (total romEntryCost ledger.roms.entries) (total Candidate.romCost ledger.romCandidates))
      (both (both (total findingCost ledger.findings.entries) (total Candidate.findingCost ledger.findingCandidates))
        free))

def WithinBudget : Prop := ∀ r, ledger.cost r ≤ scanLimit r

def scanned : Scanned := ⟨ledger.loadableRuns, ledger.loadableRoms, ledger.loadableFindings, ledger.unloadable⟩

end LedgerTree

theorem LedgerTree.clear_iff (ledger : LedgerTree) :
    ledger.Clear ↔ (ledger.roms.Clear fun entry => entry.kind.Clear fun rom => rom.runs.Clear RunEntryClear) ∧
      (ledger.roms.Clear fun entry => entry.kind.Clear fun rom => rom.romJson.Clear) ∧
      (ledger.findings.Clear fun _ => True) :=
  ⟨fun h => ⟨h.runs, h.roms, h.findings⟩, fun h => ⟨h.1, h.2.1, h.2.2⟩⟩

theorem spendsWhen_scan (ledger : LedgerTree) : SpendsWhen ledger.Clear (scan ledger) ledger.cost ledger.scanned := by
  rw [ledger.clear_iff]
  unfold scan
  refine ((spendsWhen_runJsonPaths ledger).bind_spends (spends_loadLenient loads_readRunBudgeted _)).bind ?_
  refine ((spendsWhen_romJsonPaths ledger).bind_spends (spends_loadLenient loads_readRomBudgeted _)).bind ?_
  exact ((spendsWhen_findingJsonPaths ledger).bind_spends
    (spends_loadLenient loads_readFindingBudgeted _)).bind_spends (spends_pure _)

end Emucap.Track
