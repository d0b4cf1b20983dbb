import Emucap.Track.Index
import Emucap.Track.ScanSpec
import Emucap.Track.Server

/-!
# When a query of the ledger is answered

A query gives every run that loads and is asked for, in order, and the number of records that do not load, exactly
when the index can take all the records that load (`Indexable`) and the answer is not too large.
-/

namespace Emucap.Track

open Emucap.Lib Emucap.Lib.Metered

/-! ## Tables -/

theorem insertRows_eq_ok {α : Type} {table : String} {key : α → String} {check : α → Except IndexError Unit} {xs : List α}
    {keys keys' : List String} (hkeys : keys.Nodup) :
    insertRows table key check xs keys = .ok keys' ↔
      (∀ x ∈ xs, check x = .ok ()) ∧ (keys ++ xs.map key).Nodup ∧ keys' = keys ++ xs.map key := by
  induction xs generalizing keys with
  | nil => simp [insertRows, hkeys, eq_comm]
  | cons x xs ih =>
    rw [insertRows, bind_eq_ok]
    simp only [require_bind_eq_ok, List.forall_mem_cons, List.map_cons]
    constructor
    · rintro ⟨u, hcheck, hnew, hrest⟩
      have hnodup : (keys ++ [key x]).Nodup := by
        rw [List.nodup_append]
        refine ⟨hkeys, List.nodup_singleton _, fun k hk k' hk' heq => ?_⟩
        rw [List.mem_singleton] at hk'
        exact hnew (hk' ▸ heq ▸ hk)
      rw [ih hnodup, List.append_assoc] at hrest
      exact ⟨⟨hcheck, hrest.1⟩, hrest.2⟩
    · rintro ⟨⟨hcheck, hchecks⟩, hnodup, rfl⟩
      have hsplit : keys ++ key x :: xs.map key = keys ++ [key x] ++ xs.map key := by simp
      rw [hsplit] at hnodup
      have hfirst := (List.nodup_append.mp hnodup).1
      refine ⟨(), hcheck, fun hmem => ?_, (ih hfirst).mpr ⟨hchecks, hnodup, hsplit⟩⟩
      exact (List.nodup_append.mp hfirst).2.2 _ hmem _ (List.mem_singleton_self _) rfl

/-- What the index can take beside what it has. -/
structure CanTake (index : Index) (runs : List Run) : Prop where
  runIds : (index.runs.map IndexedRun.id ++ runs.map Run.id).Nodup
  gateIds : (index.gates ++ runs.flatMap fun run => run.gates.map Gate.id).Nodup
  metricIds : (index.metrics ++ runs.flatMap fun run => run.metrics.map Metric.id).Nodup
  artifactIds : (index.artifacts ++ runs.flatMap fun run => run.artifacts.map Artifact.id).Nodup
  interventionIds : (index.interventions ++ runs.flatMap fun run => run.interventions.map Intervention.id).Nodup
  inRange : ∀ run ∈ runs, ∀ i ∈ run.interventions, interventionStorable i = .ok ()

def Index.with (index : Index) (run : Run) : Index :=
  { index with
    runs := index.runs ++ [run.indexed]
    gates := index.gates ++ run.gates.map Gate.id
    metrics := index.metrics ++ run.metrics.map Metric.id
    artifacts := index.artifacts ++ run.artifacts.map Artifact.id
    interventions := index.interventions ++ run.interventions.map Intervention.id }

theorem canTake_cons {index : Index} {run : Run} {runs : List Run} :
    CanTake index (run :: runs) ↔ CanTake (index.with run) runs ∧
      ∀ i ∈ run.interventions, interventionStorable i = .ok () := by
  constructor
  · intro h
    refine ⟨⟨?_, ?_, ?_, ?_, ?_, fun run' hrun' => h.inRange run' (List.mem_cons_of_mem _ hrun')⟩,
      h.inRange run List.mem_cons_self⟩
    · simpa [Index.with, Run.indexed] using h.runIds
    · simpa [Index.with] using h.gateIds
    · simpa [Index.with] using h.metricIds
    · simpa [Index.with] using h.artifactIds
    · simpa [Index.with] using h.interventionIds
  · rintro ⟨h, hrange⟩
    refine ⟨?_, ?_, ?_, ?_, ?_, fun run' hrun' => ?_⟩
    · simpa [Index.with, Run.indexed] using h.runIds
    · simpa [Index.with] using h.gateIds
    · simpa [Index.with] using h.metricIds
    · simpa [Index.with] using h.artifactIds
    · simpa [Index.with] using h.interventionIds
    · rcases List.mem_cons.mp hrun' with rfl | hmem
      · exact hrange
      · exact h.inRange run' hmem

theorem CanTake.nil_of {index : Index} {runs : List Run} (h : CanTake index runs) : CanTake index [] := by
  refine ⟨?_, ?_, ?_, ?_, ?_, fun run hrun => by cases hrun⟩
  · simpa using (List.nodup_append.mp h.runIds).1
  · simpa using (List.nodup_append.mp h.gateIds).1
  · simpa using (List.nodup_append.mp h.metricIds).1
  · simpa using (List.nodup_append.mp h.artifactIds).1
  · simpa using (List.nodup_append.mp h.interventionIds).1

theorem indexRun_eq_ok {index index' : Index} {run : Run} (h : CanTake index []) :
    indexRun index run = .ok index' ↔ CanTake index [run] ∧ index' = index.with run := by
  have hgates : index.gates.Nodup := by simpa using h.gateIds
  have hmetrics : index.metrics.Nodup := by simpa using h.metricIds
  have hartifacts : index.artifacts.Nodup := by simpa using h.artifactIds
  have hinterventions : index.interventions.Nodup := by simpa using h.interventionIds
  have hruns : (index.runs.map IndexedRun.id).Nodup := by simpa using h.runIds
  unfold indexRun
  rw [require_bind_eq_ok]
  simp only [bind_eq_ok, insertRows_eq_ok hgates, insertRows_eq_ok hmetrics,
    insertRows_eq_ok hartifacts, insertRows_eq_ok hinterventions]
  constructor
  · rintro ⟨hid, _, ⟨-, hg, rfl⟩, _, ⟨-, hm, rfl⟩, _, ⟨-, ha, rfl⟩, _, ⟨hrange, hi, rfl⟩, hindex⟩
    refine ⟨⟨?_, ?_, ?_, ?_, ?_, ?_⟩, (Except.ok.inj hindex).symm⟩
    · rw [List.map_singleton, List.nodup_append]
      refine ⟨hruns, List.nodup_singleton _, fun id hmem id' hmem' heq => hid ?_⟩
      rw [List.mem_singleton] at hmem'
      exact hmem' ▸ heq ▸ hmem
    · simpa using hg
    · simpa using hm
    · simpa using ha
    · simpa using hi
    · simpa using hrange
  · rintro ⟨htake, rfl⟩
    refine ⟨fun hmem => ?_, _, ⟨fun _ _ => rfl, ?_, rfl⟩, _, ⟨fun _ _ => rfl, ?_, rfl⟩, _, ⟨fun _ _ => rfl, ?_, rfl⟩, _,
      ⟨htake.inRange run List.mem_cons_self, ?_, rfl⟩, rfl⟩
    · exact (List.nodup_append.mp htake.runIds).2.2 _ hmem _ (by simp) rfl
    · simpa using htake.gateIds
    · simpa using htake.metricIds
    · simpa using htake.artifactIds
    · simpa using htake.interventionIds

def Index.withAll (index : Index) (runs : List Run) : Index := runs.foldl Index.with index

theorem indexRuns_eq_ok {index index' : Index} {runs : List Run} (h : CanTake index []) :
    indexRuns runs index = .ok index' ↔ CanTake index runs ∧ index' = index.withAll runs := by
  induction runs generalizing index with
  | nil => simp [indexRuns, h, Index.withAll, eq_comm]
  | cons run runs ih =>
    rw [indexRuns, bind_eq_ok]
    simp only [indexRun_eq_ok h]
    constructor
    · rintro ⟨_, ⟨hrun, rfl⟩, hrest⟩
      have hfirst := (canTake_cons).mp hrun
      rw [ih hfirst.1] at hrest
      exact ⟨(canTake_cons).mpr ⟨hrest.1, hfirst.2⟩, hrest.2⟩
    · rintro ⟨htake, rfl⟩
      obtain ⟨hrest, hrange⟩ := (canTake_cons).mp htake
      have hnil := hrest.nil_of
      exact ⟨_, ⟨(canTake_cons).mpr ⟨hnil, hrange⟩, rfl⟩, (ih hnil).mpr ⟨hrest, rfl⟩⟩

theorem withAll_runs (index : Index) (runs : List Run) :
    (index.withAll runs).runs = index.runs ++ runs.map Run.indexed := by
  induction runs generalizing index with
  | nil => simp [Index.withAll]
  | cons run runs ih =>
    show ((index.with run).withAll runs).runs = _
    rw [ih]
    simp [Index.with]

/-! ## The records of a scan -/

/-- The identifiers of the runs that load and of the entries in them differ, and the numbers in them fit. -/
structure Indexable (runs : List Run) : Prop where
  runIds : (runs.map Run.id).Nodup
  gateIds : (runs.flatMap fun run => run.gates.map Gate.id).Nodup
  metricIds : (runs.flatMap fun run => run.metrics.map Metric.id).Nodup
  artifactIds : (runs.flatMap fun run => run.artifacts.map Artifact.id).Nodup
  interventionIds : (runs.flatMap fun run => run.interventions.map Intervention.id).Nodup
  inRange : ∀ run ∈ runs, ∀ i ∈ run.interventions, i.seq < 2 ^ 63 ∧ ∀ frame, i.atFrame = some frame → frame < 2 ^ 63

theorem interventionStorable_eq_ok {i : Intervention} :
    interventionStorable i = .ok () ↔ i.seq < 2 ^ 63 ∧ ∀ frame, i.atFrame = some frame → frame < 2 ^ 63 := by
  unfold interventionStorable toI64
  rw [require_bind_eq_ok]
  cases i.atFrame with
  | none => simp
  | some frame => simp

theorem canTake_iff {roms : List String} {runs : List Run} :
    CanTake { Index.empty with roms } runs ↔ Indexable runs := by
  constructor
  · intro h
    refine ⟨h.runIds, h.gateIds, h.metricIds, h.artifactIds, h.interventionIds, fun run hrun i hi => ?_⟩
    exact (interventionStorable_eq_ok).mp (h.inRange run hrun i hi)
  · intro h
    refine ⟨h.runIds, h.gateIds, h.metricIds, h.artifactIds, h.interventionIds, fun run hrun i hi => ?_⟩
    exact (interventionStorable_eq_ok).mpr (h.inRange run hrun i hi)

theorem Indexable.nil : Indexable [] := by
  refine ⟨List.nodup_nil, List.nodup_nil, List.nodup_nil, List.nodup_nil, List.nodup_nil, fun run hrun => ?_⟩
  cases hrun

theorem reindexFrom_eq_ok {s : Scanned} {index : Index} (hroms : (s.roms.map Rom.sha1).Nodup)
    (hfindings : (s.findings.map Finding.id).Nodup) :
    reindexFrom s = .ok index ↔ Indexable s.runs ∧
      index = { ({ Index.empty with roms := s.roms.map Rom.sha1 } : Index).withAll s.runs with
        findings := s.findings.map Finding.id } := by
  unfold reindexFrom
  have hempty (roms : List String) : CanTake { Index.empty with roms } [] := (canTake_iff).mpr .nil
  simp only [bind_eq_ok, insertRows_eq_ok List.nodup_nil, indexRuns_eq_ok (hempty _), List.nil_append]
  constructor
  · rintro ⟨_, ⟨-, -, rfl⟩, _, ⟨htake, rfl⟩, _, ⟨-, -, rfl⟩, hindex⟩
    exact ⟨(canTake_iff).mp htake, (Except.ok.inj hindex).symm⟩
  · rintro ⟨hindexable, rfl⟩
    exact ⟨_, ⟨fun _ _ => rfl, hroms, rfl⟩, _, ⟨(canTake_iff).mpr hindexable, rfl⟩, _,
      ⟨fun _ _ => rfl, hfindings, rfl⟩, rfl⟩

/-! ## Names -/

theorem flatMap_sublist_filterMap {α β : Type} {f : α → List β} {g : α → Option β} (h : ∀ a, (f a).Sublist (g a).toList)
    (xs : List α) : (xs.flatMap f).Sublist (xs.filterMap g) := by
  induction xs with
  | nil => exact List.Sublist.refl _
  | cons a xs ih =>
    have hsplit : (a :: xs).filterMap g = (g a).toList ++ xs.filterMap g := by
      cases hg : g a with
      | none => simp [hg]
      | some b => simp [hg]
    rw [List.flatMap_cons, hsplit]
    exact (h a).append ih

theorem Candidate.path_of_rom {c : Candidate String Rom} {rom : Rom} (h : c.rom = some rom) : c.path = some rom.sha1 := by
  obtain ⟨sha1, hpath, hfile⟩ := Option.bind_eq_some_iff.mp h
  have hrom := (Option.filter_eq_some_iff.mp hfile).2
  simp only [Bool.decide_and, Bool.and_eq_true, decide_eq_true_eq] at hrom
  rw [(Option.filter_eq_some_iff.mp hpath).1, hrom.1]

theorem Candidate.path_of_finding {c : Candidate String Finding} {finding : Finding} (h : c.finding = some finding) :
    c.path = some finding.id := by
  obtain ⟨read, -, hread⟩ := Option.bind_eq_some_iff.mp h
  obtain ⟨id, hpath, hfile⟩ := Option.bind_eq_some_iff.mp hread
  obtain ⟨hsame, hfinding⟩ := Option.filter_eq_some_iff.mp hfile
  obtain rfl := Option.some.inj hsame
  simp only [Bool.decide_and, Bool.and_eq_true, decide_eq_true_eq] at hfinding
  rw [hpath, hfinding.1]

theorem names_sublist {ι α : Type} {value : Candidate ι α → Option α} {id : α → ι}
    (hvalue : ∀ c a, value c = some a → c.path = some (id a)) (c : Candidate ι α) :
    (([c].filterMap value).map id).Sublist c.path.toList := by
  cases hc : value c with
  | none => simp [hc]
  | some a => simp [hc, hvalue c a hc]

theorem LedgerTree.nodup_roms (ledger : LedgerTree) : (ledger.loadableRoms.map Rom.sha1).Nodup := by
  refine List.Nodup.sublist ?_ ledger.romNames
  unfold loadableRoms romCandidates
  rw [List.filterMap_flatMap, List.map_flatMap]
  refine flatMap_sublist_filterMap (fun entry => ?_) _
  unfold romEntryCandidates
  cases entry.kind with
  | symlink => exact List.nil_sublist _
  | other => exact List.nil_sublist _
  | dir rom =>
    show (((rom.romJson.candidates entry.name).filterMap Candidate.rom).map Rom.sha1).Sublist _
    cases rom.romJson with
    | absent => exact List.nil_sublist _
    | other => exact List.nil_sublist _
    | blocked e => exact List.nil_sublist _
    | file record => exact names_sublist (fun _ _ => Candidate.path_of_rom) ⟨entry.name, record⟩

theorem LedgerTree.nodup_findings (ledger : LedgerTree) : (ledger.loadableFindings.map Finding.id).Nodup := by
  refine List.Nodup.sublist ?_ ledger.findingNames
  unfold loadableFindings findingCandidates
  rw [List.filterMap_flatMap, List.map_flatMap]
  refine flatMap_sublist_filterMap (fun entry => ?_) _
  obtain ⟨stem, json, file⟩ := entry
  cases json with
  | false => exact List.nil_sublist _
  | true =>
    cases file with
    | none => exact List.nil_sublist _
    | some record => exact names_sublist (fun _ _ => Candidate.path_of_finding) ⟨stem, record⟩

/-! ## The answer -/

theorem scanOf_eq_ok {ledger : LedgerTree} (hbudget : ledger.WithinBudget) {s : Scanned} :
    scanOf ledger = .ok s ↔ ledger.Clear ∧ s = ledger.scanned := by
  unfold scanOf
  by_cases hclear : ledger.Clear
  · obtain ⟨b, -, hrun⟩ := (spendsWhen_scan ledger).spends hclear scanLimit hbudget
    rw [hrun]
    simp [Metered.result, hclear, eq_comm]
  · obtain ⟨e, b, hrun⟩ := (spendsWhen_scan ledger).fails hclear scanLimit hbudget
    rw [hrun]
    simp [hclear]

def LedgerTree.rows (ledger : LedgerTree) (filter : RunFilter) : List RunRow :=
  selectRuns filter (ledger.loadableRuns.map Run.indexed)

/-- A query can be answered: the filter names a ROM that can exist, the index opens, nothing stands in the way of the
scan, the index can take every run that loads, and the answer is not too large. -/
structure Answerable (opened : Except ToolError Unit) (ledger : LedgerTree) (filter : RunFilter) : Prop where
  romValid : filter.romSha1.all validLedgerId = true
  opens : opened = .ok ()
  clear : ledger.Clear
  indexable : Indexable ledger.loadableRuns
  textFits : ((ledger.rows filter).map RunRow.textBytes).sum ≤ maxResultBytes
  rowsFit : prettyBytes (.arr ((ledger.rows filter).map RunRow.json)) ≤ maxResultBytes
  answerFits : prettyBytes (QueryResponse.json ⟨ledger.rows filter, ledger.unloadable⟩) ≤ maxResultBytes

theorem orThrow_eq_ok {α ε : Type} {f : ε → ToolError} {x : Except ε α} {a : α} {index index' : Index} :
    orThrow f x index = .ok a index' ↔ x = .ok a ∧ index' = index := by
  cases x with
  | ok b =>
    show EStateM.Result.ok b index = .ok a index' ↔ _
    simp [eq_comm]
  | error e =>
    show EStateM.Result.error (f e) index = .ok a index' ↔ _
    simp

theorem length_flatMap_le_total {α β : Type} {f : α → List β} {cost : α → Resource → ℕ} {r : Resource}
    (h : ∀ a, (f a).length ≤ cost a r) (xs : List α) : (xs.flatMap f).length ≤ total cost xs r := by
  induction xs with
  | nil => exact Nat.le_refl _
  | cons a xs ih =>
    rw [total_cons, List.flatMap_cons, List.length_append]
    exact Nat.add_le_add (h a) ih

theorem LedgerTree.length_runs_le (ledger : LedgerTree) (hbudget : ledger.WithinBudget) :
    ledger.loadableRuns.length ≤ scanLimit .records := by
  have hmember (path : Option (String × String)) (member : Member Run) :
      (member.candidates path).length ≤ member.cost .records := by
    cases member with
    | absent => exact Nat.le_refl _
    | other => exact Nat.le_refl _
    | blocked e => exact Nat.le_refl _
    | file record => exact Nat.le_refl _
  have hrun (rom : Option String) (entry : Entry (Member Run)) :
      (runEntryCandidates rom entry).length ≤ runEntryCost entry .records := by
    unfold runEntryCandidates runEntryCost
    cases entry.kind with
    | symlink => exact Nat.zero_le _
    | other => exact Nat.zero_le _
    | dir member => exact Nat.le_trans (hmember _ member) (Nat.le_add_left _ _)
  have hrom (entry : Entry RomDir) : (romEntryRunCandidates entry).length ≤ romEntryRunCost entry .records := by
    unfold romEntryRunCandidates romEntryRunCost
    cases entry.kind with
    | symlink => exact Nat.zero_le _
    | other => exact Nat.zero_le _
    | dir rom => exact Nat.le_trans (length_flatMap_le_total (hrun _) _) (Nat.le_add_left _ _)
  calc ledger.loadableRuns.length
      ≤ ledger.runCandidates.length := List.length_filterMap_le _ _
    _ ≤ total romEntryRunCost ledger.roms.entries .records := length_flatMap_le_total hrom _
    _ ≤ ledger.cost .records :=
        Nat.le_trans (Nat.le_add_right _ (total Candidate.runCost ledger.runCandidates .records)) (Nat.le_add_right _ _)
    _ ≤ scanLimit .records := hbudget .records

def LedgerTree.index (ledger : LedgerTree) : Index :=
  { ({ Index.empty with roms := ledger.loadableRoms.map Rom.sha1 } : Index).withAll ledger.loadableRuns with
    findings := ledger.loadableFindings.map Finding.id }

theorem LedgerTree.index_runs (ledger : LedgerTree) : ledger.index.runs = ledger.loadableRuns.map Run.indexed := by
  show (Index.withAll _ _).runs = _
  rw [withAll_runs]
  rfl

/-- A query is answered exactly when it can be, with the rows in their order and the count of the records skipped. -/
theorem queryRuns_eq_ok {opened : Except ToolError Unit} {ledger : LedgerTree} (hbudget : ledger.WithinBudget)
    {filter : RunFilter} {index index' : Index} {response : QueryResponse} :
    queryRuns opened ledger filter index = .ok response index' ↔
      Answerable opened ledger filter ∧ response = ⟨ledger.rows filter, ledger.unloadable⟩ ∧ index' = ledger.index := by
  have hreindex {index : Index} : reindexFrom ledger.scanned = .ok index ↔
      Indexable ledger.loadableRuns ∧ index = ledger.index :=
    reindexFrom_eq_ok ledger.nodup_roms ledger.nodup_findings
  have hquery {rows : List RunRow} : queryIndex ledger.index filter = .ok rows ↔
      ((ledger.rows filter).map RunRow.textBytes).sum ≤ maxResultBytes ∧
        prettyBytes (.arr ((ledger.rows filter).map RunRow.json)) ≤ maxResultBytes ∧ rows = ledger.rows filter := by
    unfold queryIndex
    have hlength : ledger.index.runs.length ≤ scanLimit .records := by
      rw [ledger.index_runs, List.length_map]
      exact ledger.length_runs_le hbudget
    have hrows : selectRuns filter ledger.index.runs = ledger.rows filter := by
      rw [ledger.index_runs]
      rfl
    simp only [require_bind_eq_ok, checkResult, hlength, hrows, true_and, Except.ok.injEq]
    rw [@eq_comm _ (ledger.rows filter) rows]
  unfold queryRuns
  simp only [bind_run_eq_ok, orThrow_eq_ok]
  constructor
  · rintro ⟨_, _, ⟨hfilter, rfl⟩, _, _, ⟨hopened, rfl⟩, s, _, ⟨hscan, rfl⟩, built, _, ⟨hbuilt, rfl⟩, _, _, hset, rows, _,
      ⟨hrows, rfl⟩, _, _, ⟨hcheck, rfl⟩, hreturn⟩
    obtain ⟨hclear, rfl⟩ := (scanOf_eq_ok hbudget).mp hscan
    obtain ⟨hindexable, rfl⟩ := hreindex.mp hbuilt
    obtain ⟨htext, hpretty, rfl⟩ := hquery.mp hrows
    cases hset
    cases hreturn
    exact ⟨⟨require_eq_ok.mp hfilter, hopened, hclear, hindexable, htext, hpretty, require_eq_ok.mp hcheck⟩, rfl, rfl⟩
  · rintro ⟨h, rfl, rfl⟩
    exact ⟨(), index, ⟨require_eq_ok.mpr h.romValid, rfl⟩, (), index, ⟨h.opens, rfl⟩, ledger.scanned, index,
      ⟨(scanOf_eq_ok hbudget).mpr ⟨h.clear, rfl⟩, rfl⟩, ledger.index, index, ⟨hreindex.mpr ⟨h.indexable, rfl⟩, rfl⟩, ⟨⟩,
      ledger.index, rfl, ledger.rows filter, ledger.index, ⟨hquery.mpr ⟨h.textFits, h.rowsFit, rfl⟩, rfl⟩, (),
      ledger.index, ⟨require_eq_ok.mpr h.answerFits, rfl⟩, rfl⟩

/-! ## What the answer says -/

def RunFilter.Matches (filter : RunFilter) (run : Run) : Prop :=
  (∀ v, filter.romSha1 = some v → run.romSha1 = v) ∧ (∀ v, filter.goal = some v → run.goal = some v) ∧
    ∀ v, filter.status = some v → run.status.text = v

theorem accepts_iff {filter : RunFilter} {run : Run} : filter.accepts run.indexed = true ↔ filter.Matches run := by
  unfold RunFilter.accepts RunFilter.Matches
  rw [Bool.and_eq_true, Bool.and_eq_true, and_assoc, Option.all_eq_true, Option.all_eq_true, Option.all_eq_true]
  exact and_congr (forall₂_congr fun _ _ => decide_eq_true_iff)
    (and_congr (forall₂_congr fun _ _ => decide_eq_true_iff) (forall₂_congr fun _ _ => decide_eq_true_iff))

/-- The later run comes first, and of two that started together the one with the greater identifier. -/
def LaterFirst (a b : Run) : Prop := b.startedAt < a.startedAt ∨ a.startedAt = b.startedAt ∧ b.id < a.id

/-- The runs that load and match, each once and in their order, and the number of records that do not load. -/
structure Answers (ledger : LedgerTree) (filter : RunFilter) (response : QueryResponse) : Prop where
  runs : ∃ runs : List Run, (∀ run, run ∈ runs ↔ run ∈ ledger.loadableRuns ∧ filter.Matches run) ∧
    runs.Pairwise LaterFirst ∧ response.runs = runs.map fun run => run.indexed.row
  skipped : response.skipped = ledger.unloadable

/-- The same records, listed in another order. -/
structure Relisted (ledger ledger' : LedgerTree) : Prop where
  runs : ledger'.runCandidates.Perm ledger.runCandidates
  roms : ledger'.romCandidates.Perm ledger.romCandidates
  findings : ledger'.findingCandidates.Perm ledger.findingCandidates
  clear : ledger'.Clear ↔ ledger.Clear
  cost : ledger'.cost = ledger.cost

instance : Std.Total precedes where
  total a b := by
    rcases lt_trichotomy a.startedAt b.startedAt with hlt | heq | hgt
    · exact .inr (.inl hlt)
    · rcases le_total b.id a.id with hle | hle
      · exact .inl (.inr ⟨heq, hle⟩)
      · exact .inr (.inr ⟨heq.symm, hle⟩)
    · exact .inl (.inl hgt)

instance : IsTrans IndexedRun precedes where
  trans a b c := by
    rintro (hab | ⟨hab, hid⟩) (hbc | ⟨hbc, hid'⟩)
    · exact .inl (hbc.trans hab)
    · exact .inl (hbc ▸ hab)
    · exact .inl (hab ▸ hbc)
    · exact .inr ⟨hab.trans hbc, hid'.trans hid⟩

theorem pairwise_laterFirst {runs : List Run} (hids : (runs.map Run.id).Nodup)
    (h : runs.Pairwise fun a b => precedes a.indexed b.indexed) : runs.Pairwise LaterFirst := by
  rw [List.Nodup, List.pairwise_map] at hids
  refine (h.and hids).imp ?_
  rintro a b ⟨hlt | ⟨heq, hle⟩, hne⟩
  · exact .inl hlt
  · exact .inr ⟨heq, lt_of_le_of_ne hle (Ne.symm hne)⟩

theorem LaterFirst.irrefl (run : Run) : ¬LaterFirst run run := by
  rintro (h | ⟨-, h⟩)
  · exact lt_irrefl _ h
  · exact lt_irrefl _ h

theorem LaterFirst.asymm {a b : Run} (h : LaterFirst a b) : ¬LaterFirst b a := by
  rcases h with hlt | ⟨heq, hlt⟩
  · rintro (hlt' | ⟨heq', -⟩)
    · exact lt_asymm hlt hlt'
    · exact hlt.ne heq'
  · rintro (hlt' | ⟨-, hlt'⟩)
    · exact hlt'.ne heq
    · exact lt_asymm hlt hlt'

theorem answers_rows {ledger : LedgerTree} (hindexable : Indexable ledger.loadableRuns) (filter : RunFilter) :
    Answers ledger filter ⟨ledger.rows filter, ledger.unloadable⟩ := by
  let order : Run → Run → Prop := fun a b => precedes a.indexed b.indexed
  let wanted := ledger.loadableRuns.filter fun run => filter.accepts run.indexed
  have htotal : Std.Total order := ⟨fun a b => Std.Total.total (r := precedes) a.indexed b.indexed⟩
  have htrans : IsTrans Run order := ⟨fun _ _ _ h h' => IsTrans.trans (r := precedes) _ _ _ h h'⟩
  refine ⟨⟨wanted.insertionSort order, fun run => ?_, ?_, ?_⟩, rfl⟩
  · rw [List.mem_insertionSort, List.mem_filter, accepts_iff]
  · refine pairwise_laterFirst ?_ (List.pairwise_insertionSort order wanted)
    have hperm := (List.perm_insertionSort order wanted).map Run.id
    exact hperm.nodup_iff.mpr (hindexable.runIds.sublist (List.filter_sublist.map _))
  · show selectRuns filter (ledger.loadableRuns.map Run.indexed) = _
    have hfilter : (ledger.loadableRuns.map Run.indexed).filter filter.accepts = wanted.map Run.indexed :=
      List.filter_map
    have hsort : (wanted.insertionSort order).map Run.indexed = (wanted.map Run.indexed).insertionSort precedes :=
      List.map_insertionSort _ _ Run.indexed wanted fun _ _ _ _ => Iff.rfl
    rw [selectRuns, hfilter, ← hsort, List.map_map]
    rfl

theorem Answers.unique {ledger ledger' : LedgerTree} {filter : RunFilter} {response response' : QueryResponse}
    (h : Answers ledger filter response) (h' : Answers ledger' filter response') (hrelisted : Relisted ledger ledger') :
    response' = response := by
  obtain ⟨⟨runs, hmem, horder, hrows⟩, hskipped⟩ := h
  obtain ⟨⟨runs', hmem', horder', hrows'⟩, hskipped'⟩ := h'
  have hnodup {l : List Run} (hl : l.Pairwise LaterFirst) : l.Nodup := by
    refine hl.imp ?_
    rintro a _ hab rfl
    exact LaterFirst.irrefl a hab
  have hloadable : ∀ run, run ∈ ledger'.loadableRuns ↔ run ∈ ledger.loadableRuns :=
    fun run => (hrelisted.runs.filterMap Candidate.run).mem_iff
  have hperm : runs'.Perm runs := by
    rw [List.perm_ext_iff_of_nodup (hnodup horder') (hnodup horder)]
    intro run
    rw [hmem', hmem, hloadable]
  have hsame : runs' = runs :=
    hperm.eq_of_pairwise (fun a b _ _ hab hba => absurd hba hab.asymm) horder' horder
  have hcount : response'.skipped = response.skipped := by
    rw [hskipped', hskipped, LedgerTree.unloadable, LedgerTree.unloadable, hrelisted.runs.countP_eq,
      hrelisted.roms.countP_eq, hrelisted.findings.countP_eq]
  obtain ⟨rows, skipped⟩ := response
  obtain ⟨rows', skipped'⟩ := response'
  simp only at hrows hrows' hcount
  rw [hrows', hsame, ← hrows, hcount]

theorem Indexable.perm {runs runs' : List Run} (h : Indexable runs) (hperm : runs'.Perm runs) : Indexable runs' :=
  ⟨(hperm.map _).nodup_iff.mpr h.runIds, (hperm.flatMap_right _).nodup_iff.mpr h.gateIds,
    (hperm.flatMap_right _).nodup_iff.mpr h.metricIds, (hperm.flatMap_right _).nodup_iff.mpr h.artifactIds,
    (hperm.flatMap_right _).nodup_iff.mpr h.interventionIds, fun run hrun => h.inRange run (hperm.mem_iff.mp hrun)⟩

theorem Answerable.relisted {opened : Except ToolError Unit} {ledger ledger' : LedgerTree} {filter : RunFilter}
    (h : Answerable opened ledger filter) (hrelisted : Relisted ledger ledger') :
    Answerable opened ledger' filter ∧ ledger'.rows filter = ledger.rows filter ∧
      ledger'.unloadable = ledger.unloadable := by
  have hindexable : Indexable ledger'.loadableRuns := h.indexable.perm (hrelisted.runs.filterMap Candidate.run)
  have hsame := (answers_rows h.indexable filter).unique (answers_rows hindexable filter) hrelisted
  have hrows : ledger'.rows filter = ledger.rows filter := congrArg QueryResponse.runs hsame
  have hskipped : ledger'.unloadable = ledger.unloadable := congrArg QueryResponse.skipped hsame
  refine ⟨⟨h.romValid, h.opens, hrelisted.clear.mpr h.clear, hindexable, ?_, ?_, ?_⟩, hrows, hskipped⟩
  · rw [hrows]
    exact h.textFits
  · rw [hrows]
    exact h.rowsFit
  · rw [hrows, hskipped]
    exact h.answerFits

/-- Within the scan budget, a query that can be answered gives the runs that load and match, each once and in order, with
the count of the records that do not load, and gives the same answer again however the directories are listed. -/
theorem queryRuns_answers {opened : Except ToolError Unit} {ledger : LedgerTree} {filter : RunFilter}
    (hbudget : ledger.WithinBudget) (h : Answerable opened ledger filter) (index : Index) :
    ∃ response index', queryRuns opened ledger filter index = .ok response index' ∧ Answers ledger filter response ∧
      ∀ ledger', Relisted ledger ledger' → ∃ index'', queryRuns opened ledger' filter index' = .ok response index'' := by
  refine ⟨_, _, (queryRuns_eq_ok hbudget).mpr ⟨h, rfl, rfl⟩, answers_rows h.indexable filter, fun ledger' hrelisted => ?_⟩
  obtain ⟨h', hrows, hskipped⟩ := h.relisted hrelisted
  have hbudget' : ledger'.WithinBudget := fun r => hrelisted.cost ▸ hbudget r
  exact ⟨_, (queryRuns_eq_ok hbudget').mpr ⟨h', by rw [hrows, hskipped], rfl⟩⟩

/-! ## Ledgers that a server wrote -/

/-- The directories of a ledger whose records all have one size. -/
def Ledger.tree (size : ℕ) (ledger : Ledger) : LedgerTree where
  roms := .listing (ledger.roms.rows.map fun rom =>
    ⟨some rom.sha1, .dir ⟨.file (.bytes size (some rom)),
      .listing ((ledger.runs.rows.filter fun run => run.romSha1 = rom.sha1).map fun run =>
        ⟨some run.id, .dir (.file (.bytes size (some run)))⟩)⟩⟩)
  findings := .listing (ledger.findings.rows.map fun finding => ⟨some finding.id, true, some (.bytes size (some finding))⟩)
  romNames := by
    simpa [Dir.entries, List.filterMap_map, Function.comp_def] using ledger.roms.nodup
  findingNames := by
    simpa [Dir.entries, List.filterMap_map, Function.comp_def] using ledger.findings.nodup

theorem Ledger.tree_clear (size : ℕ) (ledger : Ledger) : (ledger.tree size).Clear := by
  refine ⟨?_, ?_, fun _ _ => trivial⟩
  · rintro _ hrom
    obtain ⟨rom, -, rfl⟩ := List.mem_map.mp hrom
    rintro _ hrun
    obtain ⟨run, -, rfl⟩ := List.mem_map.mp hrun
    exact trivial
  · rintro _ hrom
    obtain ⟨rom, -, rfl⟩ := List.mem_map.mp hrom
    exact trivial

def anyRun : RunFilter := ⟨none, none, none⟩

def framedLedger (frame : ℕ) : LedgerTree :=
  (serveAll plainEnv [("t0", .runStart "rom" none none none []),
    ("t1", .logIntervention "reset" none (some frame) none false)] emptyWorld).ledger.tree 512

/-- A run with an intervention at an ordinary frame is found. -/
theorem queryRuns_answers_framed :
    ∃ response index', queryRuns (.ok ()) (framedLedger 60) anyRun Index.empty = .ok response index' ∧
      Answers (framedLedger 60) anyRun response ∧ ∀ ledger', Relisted (framedLedger 60) ledger' →
        ∃ index'', queryRuns (.ok ()) ledger' anyRun index' = .ok response index'' := by
  have hbudget : (framedLedger 60).WithinBudget := by
    intro r
    cases r <;> decide +kernel
  refine queryRuns_answers hbudget ⟨rfl, rfl, Ledger.tree_clear _ _, ?_, ?_, ?_, ?_⟩ Index.empty
  · refine ⟨?_, ?_, ?_, ?_, ?_, ?_⟩
    · decide +kernel
    · decide +kernel
    · decide +kernel
    · decide +kernel
    · decide +kernel
    · have hrange : (framedLedger 60).loadableRuns.all (fun run => run.interventions.all fun i =>
          i.seq < 2 ^ 63 ∧ i.atFrame.all fun frame => frame < 2 ^ 63) = true := by decide +kernel
      simpa [Option.all_eq_true] using hrange
  · decide +kernel
  · decide +kernel
  · decide +kernel

def refusal (ledger : LedgerTree) (filter : RunFilter) : Option ToolError :=
  match queryRuns (.ok ()) ledger filter Index.empty with
  | .ok _ _ => none
  | .error e _ => some e

def linkedLedger : LedgerTree :=
  ⟨.listing [⟨some "rom", .symlink⟩], .absent, by decide, by decide⟩

def goalRun (goal id : String) : Run :=
  { formatVersion := 1, id, romSha1 := "rom", goal := some goal, description := none, tags := []
    status := .running, startedAt := "t0", endedAt := none, agent := none, session := none
    connectionRef := none, reproBase := some "reset", reproMovieRef := none
    reproStatus := some .replayableWithInterventions, gates := [], metrics := [], artifacts := []
    interventions := [] }

/-- A ledger with two runs of one goal, in records of nine million bytes and some. -/
def goalLedger (goal : String) : LedgerTree :=
  Ledger.tree (9 * 1024 * 1024 + 1024)
    ⟨⟨[goalRun goal "a", goalRun goal "b"], by simp [Run.key, goalRun]⟩, ⟨[⟨"rom", "", none, "t0"⟩], by simp⟩, .empty⟩

theorem goalLedger_withinBudget (goal : String) : (goalLedger goal).WithinBudget := by
  have hcost (r : Resource) : (goalLedger goal).cost r = (goalLedger "").cost r := by cases r <;> rfl
  intro r
  rw [hcost]
  cases r <;> decide +kernel

theorem goalLedger_refused {goal : String} (hgoal : maxResultBytes < 2 * goal.utf8ByteSize) (index : Index)
    (response : QueryResponse) (index' : Index) :
    queryRuns (.ok ()) (goalLedger goal) anyRun index ≠ .ok response index' := by
  intro hrun
  have htext := ((queryRuns_eq_ok (goalLedger_withinBudget goal)).mp hrun).1.textFits
  have hloads (id : String) (hid : validLedgerId id = true) :
      Candidate.run ⟨some ("rom", id), .bytes (9 * 1024 * 1024 + 1024) (some (goalRun goal id))⟩ =
        some (goalRun goal id) := by
    have hrom : validLedgerId "rom" = true := by decide +kernel
    simp [Candidate.run, RecordFile.value, maxRecordBytes, Run.key, goalRun, Option.filter_some, hrom, hid]
  have hruns : (goalLedger goal).loadableRuns = [goalRun goal "a", goalRun goal "b"] := by
    have hcandidates : (goalLedger goal).runCandidates =
        [⟨some ("rom", "a"), .bytes (9 * 1024 * 1024 + 1024) (some (goalRun goal "a"))⟩,
          ⟨some ("rom", "b"), .bytes (9 * 1024 * 1024 + 1024) (some (goalRun goal "b"))⟩] := by
      simp [goalLedger, Ledger.tree, LedgerTree.runCandidates, Dir.entries, romEntryRunCandidates, EntryKind.candidates,
        runEntryCandidates, Member.candidates, goalRun]
    rw [LedgerTree.loadableRuns, hcandidates, List.filterMap_cons_some (hloads "a" (by decide +kernel)),
      List.filterMap_cons_some (hloads "b" (by decide +kernel)), List.filterMap_nil]
  have hperm : ((goalLedger goal).rows anyRun).Perm [(goalRun goal "a").indexed.row, (goalRun goal "b").indexed.row] := by
    unfold LedgerTree.rows selectRuns
    rw [hruns]
    exact (List.perm_insertionSort precedes _).map _
  rw [(hperm.map RunRow.textBytes).sum_nat] at htext
  simp only [List.map_cons, List.map_nil, List.sum_cons, List.sum_nil, RunRow.textBytes, IndexedRun.row, Run.indexed,
    goalRun, Option.map_some, Option.getD_some] at htext
  omega

/-- A query that is refused within the scan budget: for a filter that is no identifier, for a symlink in the place of
a directory, for an answer that is too large, and for one intervention at a frame beyond the signed range, which the
tool accepts. -/
theorem queryRuns_refused :
    refusal (framedLedger 60) ⟨some "no id", none, none⟩ = some (.track (.invalid
        "rom_sha1 must contain 1..=128 ASCII alphanumeric characters separated only by single hyphens")) ∧
      (linkedLedger.WithinBudget ∧ refusal linkedLedger anyRun = some (.track romSymlink)) ∧
      (∃ goal, (goalLedger goal).WithinBudget ∧ ∀ index response index',
        queryRuns (.ok ()) (goalLedger goal) anyRun index ≠ .ok response index') ∧
      (framedLedger (2 ^ 63)).WithinBudget ∧ (framedLedger (2 ^ 63)).loadableRuns.map Run.id = ["a"] ∧
      refusal (framedLedger (2 ^ 63)) anyRun =
        some (.other "ledger_corrupt" "tracking value at_frame is outside the supported range: 9223372036854775808") := by
  have hlarge : maxResultBytes < 2 * (String.ofList (List.replicate (9 * 1024 * 1024) 'a')).utf8ByteSize := by
    rw [String.utf8ByteSize_ofList, utf8Len_of_isAlphanum, List.length_replicate]
    · decide
    · intro c hc
      rw [List.eq_of_mem_replicate hc]
      rfl
  refine ⟨?_, ⟨fun r => ?_, ?_⟩, ⟨_, goalLedger_withinBudget _, goalLedger_refused hlarge⟩, fun r => ?_, ?_, ?_⟩
  · decide +kernel
  · cases r <;> decide +kernel
  · decide +kernel
  · cases r <;> decide +kernel
  · decide +kernel
  · decide +kernel

end Emucap.Track
