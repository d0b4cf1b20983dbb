import Emucap.OpenmsxBridge.HitQueue

/-!
# The delivery of hits

Over every run a hit waits in the queue inside openMSX, waits in the bridge, has been returned by one poll, or is
counted in one `dropped` number (`hits_delivered`). `Safe` leaves out the steps that lose hits.
-/

namespace Emucap.OpenmsxBridge

open Emucap.Lib Emucap.OpenmsxBridge.Native

/-! ## Runs -/

/-- A method of the debugger, or the guest by itself. -/
inductive DebugOp where
  | set (params : Json)
  | clear (params : Json)
  | clearAll
  | poll (params : Json)
  | status
  | prepare (operation : String)
  /-- the guest runs on, without a command -/
  | guest

/-- What a poll was asked for and what it returned. -/
structure Poll where
  filter : Option ℕ
  events : List Event
  dropped : ℕ

def wanted (filter : Option ℕ) (e : Event) : Bool := decide (filter = none ∨ filter = some e.breakpointId)

def pollFilter (params : Json) : Option ℕ :=
  match optionalNum params "breakpoint_id" with
  | .ok filter => filter
  | .error _ => none

section control
variable (choose : Chooser)

def DebugOp.perform : DebugOp → Bridged Reply
  | .set params => setBreakpoint choose params
  | .clear params => clearBreakpoint choose params
  | .clearAll => clearAllBreakpoints choose
  | .poll params => pollEvents choose params
  | .status => OpenmsxBridge.status choose
  | .prepare operation => prepareTemporalRequest choose operation
  | .guest => fun w => .ok .done w.met

def DebugOp.logged : DebugOp → Reply → List Poll
  | .poll params, .polled events dropped => [⟨pollFilter params, events, dropped⟩]
  | _, _ => []

/-- The polls so far and the world, after one more method. -/
def DebugOp.step (s : List Poll × World) (op : DebugOp) : List Poll × World :=
  match op.perform choose s.2 with
  | .ok reply w => (s.1 ++ op.logged reply, w)
  | .error _ w => (s.1, w)

def runDebug (s : List Poll × World) (ops : List DebugOp) : List Poll × World := ops.foldl (DebugOp.step choose) s

/-! ## The steps that are left out -/

/-- No hit of the breakpoint waits in the queue: the second field of a line names its breakpoint. -/
def NoneQueued (id : ℕ) (w : World) : Prop := ∀ l ∈ w.native.queue, (l.splitOn '|')[1]? ≠ some (decimal id)

def SafeClears : List ℕ → World → Prop
  | [], _ => True
  | id :: ids, w => NoneQueued id w.met ∧ SafeClears ids (after (clearId choose id) w)

def DebugOp.Safe (w : World) : DebugOp → Prop
  | .set _ => True
  | .clear params => ∀ id, requiredNum params "id" = .ok id → NoneQueued id w.met
  | .clearAll => SafeClears choose (w.bridge.breakpoints.map Prod.fst) w
  | .poll params => (∀ filter, optionalNum params "breakpoint_id" ≠ .ok filter) → w.met.native.dropped = 0
  | .status => w.met.native.dropped = 0
  | .prepare _ => w.met.native.dropped = 0
  | .guest => True

def SafeRun : World → List DebugOp → Prop
  | _, [] => True
  | w, op :: ops => op.Safe choose w ∧ SafeRun (after (op.perform choose) w) ops

end control

/-- What openMSX promises of the names of its points: a new one is in no use, and has the form of its kind. -/
structure Names (choose : Chooser) : Prop where
  fresh : Fresh choose
  valid : ∀ count kind used, validNativeId kind (choose count (Kind.watch kind) used) = true

/-! ## The account -/

def returnedEvents (polls : List Poll) : List Event := polls.flatMap Poll.events

def reportedDrops (polls : List Poll) : ℕ := (polls.map Poll.dropped).sum

def returnedTo (filter : Option ℕ) (polls : List Poll) : List Event :=
  returnedEvents (polls.filter fun poll => poll.filter = filter)

/-- The account of the hits up to the last drain, `counted` of which were dropped. -/
structure Ledger (polls : List Poll) (counted : ℕ) (w : World) : Prop where
  count : w.bridge.lastHitSeq = (returnedEvents polls).length + w.bridge.debugEvents.length + counted
  distinct : ((returnedEvents polls ++ w.bridge.debugEvents).map Event.hitSeq).Nodup
  bound : ∀ e ∈ returnedEvents polls ++ w.bridge.debugEvents, e.hitSeq ≤ w.bridge.lastHitSeq
  genuine : ∀ e ∈ returnedEvents polls ++ w.bridge.debugEvents, Genuine w e
  sorted : (w.bridge.debugEvents.map Event.hitSeq).Pairwise (· < ·)
  increasing : ∀ filter, ((returnedTo filter polls).map Event.hitSeq).Pairwise (· < ·)
  later : ∀ filter, ∀ e ∈ returnedTo filter polls, ∀ e' ∈ w.bridge.debugEvents, wanted filter e' = true →
    e.hitSeq < e'.hitSeq

theorem Genuine.mono {w w' : World} {e : Event} (h : Genuine w e) (hpast : w.history <+: w'.history) :
    Genuine w' e := by
  obtain ⟨p, c, hp, hrest⟩ := h
  obtain ⟨rest, hrest'⟩ := hpast
  refine ⟨p, c, ?_, hrest⟩
  rw [← hrest', List.getElem?_append_left (List.getElem?_eq_some_iff.mp hp).1]
  exact hp

section ledger
variable {polls : List Poll} {counted : ℕ} {w m : World} {events : List Event}

theorem Ledger.keep (h : Ledger polls counted w) (hevents : m.bridge.debugEvents = w.bridge.debugEvents)
    (hlast : m.bridge.lastHitSeq = w.bridge.lastHitSeq) (hpast : w.history <+: m.history) :
    Ledger polls counted m := by
  refine ⟨?_, ?_, ?_, ?_, ?_, h.increasing, ?_⟩
  · rw [hevents, hlast]
    exact h.count
  · rw [hevents]
    exact h.distinct
  · rw [hevents, hlast]
    exact h.bound
  · rw [hevents]
    exact fun e he => (h.genuine e he).mono hpast
  · rw [hevents]
    exact h.sorted
  · rw [hevents]
    exact h.later

theorem Fetched.newer {last : ℕ} (h : Fetched last w events) {e : Event} (he : e ∈ events) :
    last < e.hitSeq ∧ e.hitSeq ≤ last + w.native.dropped + events.length := by
  have hmem : e.hitSeq ∈ events.map Event.hitSeq := List.mem_map_of_mem he
  rw [h.seqs, List.mem_range'_1] at hmem
  omega

theorem mem_returnedTo {filter : Option ℕ} {e : Event} (h : e ∈ returnedTo filter polls) : e ∈ returnedEvents polls := by
  obtain ⟨poll, hpoll, he⟩ := List.mem_flatMap.mp h
  exact List.mem_flatMap.mpr ⟨poll, List.filter_sublist.subset hpoll, he⟩

theorem Ledger.fetch (h : Ledger polls counted w) (hf : Fetched w.bridge.lastHitSeq m events)
    (hpast : w.history <+: m.history) :
    Ledger polls (counted + m.native.dropped)
      { m.emptied with bridge := drained w.bridge m.native.dropped events } := by
  have hold : ∀ e ∈ returnedEvents polls ++ w.bridge.debugEvents, ∀ e' ∈ events, e.hitSeq < e'.hitSeq :=
    fun e he e' he' => (h.bound e he).trans_lt (hf.newer he').1
  have hsorted : (events.map Event.hitSeq).Pairwise (· < ·) := by
    rw [hf.seqs]
    exact List.pairwise_lt_range'
  refine ⟨?_, ?_, ?_, ?_, ?_, h.increasing, ?_⟩
  · have hcount := h.count
    simp only [drained, List.length_append]
    omega
  · show ((returnedEvents polls ++ (w.bridge.debugEvents ++ events)).map Event.hitSeq).Nodup
    rw [← List.append_assoc, List.map_append, List.nodup_append]
    refine ⟨h.distinct, hsorted.imp Nat.ne_of_lt, ?_⟩
    intro n hn n' hn'
    obtain ⟨e, he, rfl⟩ := List.mem_map.mp hn
    obtain ⟨e', he', rfl⟩ := List.mem_map.mp hn'
    exact (hold e he e' he').ne
  · show ∀ e ∈ returnedEvents polls ++ (w.bridge.debugEvents ++ events),
      e.hitSeq ≤ w.bridge.lastHitSeq + m.native.dropped + events.length
    intro e he
    rw [← List.append_assoc, List.mem_append] at he
    rcases he with he | he
    · have hle := h.bound e he
      omega
    · exact (hf.newer he).2
  · show ∀ e ∈ returnedEvents polls ++ (w.bridge.debugEvents ++ events), Genuine m e
    intro e he
    rw [← List.append_assoc, List.mem_append] at he
    rcases he with he | he
    · exact (h.genuine e he).mono hpast
    · exact hf.genuine e he
  · show ((w.bridge.debugEvents ++ events).map Event.hitSeq).Pairwise (· < ·)
    rw [List.map_append, List.pairwise_append]
    refine ⟨h.sorted, hsorted, ?_⟩
    intro n hn n' hn'
    obtain ⟨e, he, rfl⟩ := List.mem_map.mp hn
    obtain ⟨e', he', rfl⟩ := List.mem_map.mp hn'
    exact hold e (List.mem_append_right _ he) e' he'
  · intro filter e he e' he' hwanted
    rcases List.mem_append.mp he' with hwaiting | hnew
    · exact h.later filter e he e' hwaiting hwanted
    · exact hold e (List.mem_append_left _ (mem_returnedTo he)) e' hnew

/-- The bridge after a poll took the events it wanted. -/
def taken (b : Bridge) (filter : Option ℕ) : Bridge :=
  { b with debugEvents := b.debugEvents.filter fun e => !wanted filter e }

theorem Ledger.take (h : Ledger polls counted w) (filter : Option ℕ) (dropped : ℕ) :
    Ledger (polls ++ [⟨filter, w.bridge.debugEvents.filter (wanted filter), dropped⟩]) counted
      { w with bridge := taken w.bridge filter } := by
  have hreturned : returnedEvents (polls ++ [⟨filter, w.bridge.debugEvents.filter (wanted filter), dropped⟩]) =
      returnedEvents polls ++ w.bridge.debugEvents.filter (wanted filter) := by
    simp [returnedEvents]
  have hperm : (returnedEvents (polls ++ [⟨filter, w.bridge.debugEvents.filter (wanted filter), dropped⟩]) ++
      (taken w.bridge filter).debugEvents).Perm (returnedEvents polls ++ w.bridge.debugEvents) := by
    rw [hreturned, List.append_assoc]
    exact List.Perm.append_left _ (List.filter_append_perm _ _)
  have hto : ∀ other, returnedTo other
      (polls ++ [⟨filter, w.bridge.debugEvents.filter (wanted filter), dropped⟩]) =
        returnedTo other polls ++ if filter = other then w.bridge.debugEvents.filter (wanted filter) else [] := by
    intro other
    rw [returnedTo, List.filter_append, List.filter_singleton]
    by_cases hother : filter = other
    · simp [returnedEvents, returnedTo, hother]
    · simp [returnedEvents, returnedTo, hother]
  refine ⟨?_, ?_, ?_, ?_, ?_, ?_, ?_⟩
  · have hcount := h.count
    have hlength := hperm.length_eq
    rw [List.length_append, List.length_append] at hlength
    show w.bridge.lastHitSeq = _ + (taken w.bridge filter).debugEvents.length + counted
    omega
  · exact (hperm.map Event.hitSeq).nodup_iff.mpr h.distinct
  · exact fun e he => h.bound e (hperm.mem_iff.mp he)
  · exact fun e he => h.genuine e (hperm.mem_iff.mp he)
  · exact h.sorted.sublist (List.filter_sublist.map _)
  · intro other
    rw [hto]
    split_ifs with hother
    · subst hother
      rw [List.map_append, List.pairwise_append]
      refine ⟨h.increasing filter, h.sorted.sublist (List.filter_sublist.map _), ?_⟩
      intro n hn n' hn'
      obtain ⟨e, he, rfl⟩ := List.mem_map.mp hn
      obtain ⟨e', he', rfl⟩ := List.mem_map.mp hn'
      rw [List.mem_filter] at he'
      exact h.later filter e he e' he'.1 he'.2
    · rw [List.append_nil]
      exact h.increasing other
  · intro other e he e' he' hwanted
    obtain ⟨hwaiting, hleft⟩ := List.mem_filter.mp he'
    rw [hto, List.mem_append] at he
    rcases he with he | he
    · exact h.later other e he e' hwaiting hwanted
    · -- what is left is not wanted by the filter of this poll
      split_ifs at he with hother
      · rw [hother, hwanted] at hleft
        cases hleft
      · cases he

end ledger

/-! ## The methods -/

section methods
variable {choose : Chooser} {b : Bridge} {points : List NativePoint} {specs : List (ℕ × List SpecValue)}
  {past : List (NativePoint × Capture)} {w : World} {Q : Reply → World → Prop}

theorem Live.rebridge (h : Live b points specs past w) {b' : Bridge} (hlast : b'.lastHitSeq = b.lastHitSeq) :
    Live b' points specs past { w with bridge := b' } := by
  have hq := h.queue
  rw [← hlast] at hq
  exact ⟨⟨rfl, h.here.points, h.here.specs⟩, ⟨hq.lines, hq.history, hq.span, hq.kept, hq.bytes, hq.installed⟩,
    ⟨h.orderly.accepted, h.orderly.captured, h.orderly.few⟩, h.past⟩

theorem Synced.rebridge (h : Synced b points specs) {b' : Bridge} (hmap : b'.breakpoints = b.breakpoints)
    (hnext : b'.nextBreakpointId = b.nextBreakpointId) : Synced b' points specs := by
  obtain ⟨hpoints, hspecs, hnames, hids, hbelow, hnext', hadmissible, hapart, hfew⟩ := h
  rw [← hmap] at hpoints hspecs hids hbelow hadmissible hapart hfew
  rw [← hnext] at hbelow hnext'
  exact ⟨hpoints, hspecs, hnames, hids, hbelow, hnext', hadmissible, hapart, hfew⟩

def Kept (b : Bridge) (past : List (NativePoint × Capture)) (w : World) : Prop :=
  ∃ b' ps ss, Live b' ps ss past w ∧ Synced b' ps ss ∧ b'.debuggerFatal = none ∧
    b'.debugEvents = b.debugEvents ∧ b'.lastHitSeq = b.lastHitSeq

theorem ArmAllowed.smallSpecs {r : ArmRequest} (h : ArmAllowed b r) : SmallSpecs (r.snapshots.map specValue) := by
  refine ⟨by rw [List.length_map]; exact h.snapshots, ?_, ?_⟩
  · rw [List.map_map]
    exact h.bytes
  · intro v hv
    obtain ⟨s, hs, rfl⟩ := List.mem_map.mp hv
    exact h.range s hs

theorem Synced.vacant_next (h : Synced b points specs) : Vacant points b.nextBreakpointId := by
  intro p hp hid
  obtain ⟨entry, hentry, rfl⟩ := List.mem_map.mp (h.points.mem_iff.mp hp)
  exact absurd (h.below entry hentry) (by rw [← hid]; exact Nat.lt_irrefl _)

theorem wp_setBreakpoint_live (hnames : Names choose) {params : Json} (h : Live b points specs past w)
    (hs : Synced b points specs) (hhealthy : b.debuggerFatal = none) :
    wp (setBreakpoint choose params) (fun _ => Kept b past) (fun _ => Kept b past) w := by
  unfold setBreakpoint
  rw [wp_bind]
  refine wp_requireDebuggerHealthy (by rw [h.here.bridge]; exact hhealthy) ?_
  rw [wp_bind, wp_get, wp_bind, h.here.bridge]
  rcases hread : readArmRequest b params with e | r
  · exact ⟨b, points, specs, h, hs, hhealthy, rfl, rfl⟩
  have hr := readArmRequest_eq_ok hread
  rw [ofExcept, wp_pure, wp_bind, wp_get, wp_bind, h.here.bridge]
  refine wp_installSnapshotSpec_live h hs.vacant_next fun w₁ hw₁ => ?_
  rw [wp_bind, wp_attempt]
  have hsmall : SmallSpecs ((OrdMap.find? b.nextBreakpointId
      (OrdMap.insert b.nextBreakpointId (r.snapshots.map specValue) specs)).getD []) := by
    rw [OrdMap.find?_insert_self]
    exact hr.smallSpecs
  refine wp_create_live hnames.fresh hw₁
    (fun count used => ⟨hnames.valid count r.kind used, hr.ordered.trans hr.stop, hr.stop, hs.next⟩) hsmall
    fun nativeId w₂ hname hunused hw₂ => ?_
  have hvalid : validNativeId r.kind nativeId = true := by
    obtain ⟨count, used, rfl⟩ := hname
    exact hnames.valid count r.kind used
  simp only
  rw [if_neg (by simp [hvalid])]
  rw [wp_bind, wp_attempt]
  refine wp_verifyNativeBreakpointsWith_live hw₂ ((hs.names_arm hunused).of_map _) hs.expected_arm fun w₃ hw₃ => ?_
  rw [wp_bind, wp_modify, wp_pure, hw₃.here.bridge]
  exact ⟨armed b r nativeId, _, _, hw₃.rebridge rfl, hs.arm hr hunused hvalid, hhealthy, rfl, rfl⟩

theorem splitOn_hitLine_id {values : List SpecValue} {p : NativePoint} {c : Capture} {seq : ℕ}
    (hcodes : ∀ v ∈ values, v.code ≠ '|') :
    ((hitLine values p c seq).splitOn '|')[1]? = some (decimal p.publicId) := by
  rw [splitOn_hitLine hcodes]
  rfl

theorem Synced.code_ne (hs : Synced b points specs) (h : Live b points specs past w) {p : NativePoint}
    (hp : p ∈ points) {x : Char} (hx : x.isAlphanum = false) :
    ∀ v ∈ w.native.specsOf p.publicId, v.code ≠ x := by
  intro v hv
  obtain ⟨bp, -, -, hspecs, -⟩ := hs.find_of_mem hp
  rw [specsOf, h.here.specs, hspecs, Option.getD_some, List.mem_map] at hv
  obtain ⟨s, -, rfl⟩ := hv
  exact s.memoryType.code_ne hx

theorem Synced.vacant_cleared {id : ℕ} {p : PublicBreakpoint} (hs : Synced b points specs)
    (hp : OrdMap.find? id b.breakpoints = some p) : Vacant (without p.kind p.nativeId points) id := by
  intro q hq hid
  obtain ⟨entry, hentry, rfl⟩ := List.mem_map.mp ((hs.without_perm hp).mem_iff.mp hq)
  have hne := (List.mem_filter.mp hentry).2
  rw [decide_eq_true_eq] at hne
  exact hne hid

theorem wp_clearId_live {id : ℕ} (h : Live b points specs past w) (hs : Synced b points specs)
    (hnone : NoneQueued id w.met) :
    wp (clearId choose id)
      (fun _ w' => ∃ ps ss, Live (cleared b id) ps ss past w' ∧ Synced (cleared b id) ps ss)
      (fun _ w' => OrdMap.find? id b.breakpoints = none ∧ w' = w) w := by
  unfold clearId
  rw [wp_bind, wp_get, wp_bind, h.here.bridge]
  rcases hp : OrdMap.find? id b.breakpoints with _ | p
  · exact ⟨rfl, rfl⟩
  rw [orError, ofExcept, wp_pure, wp_bind]
  have hpending : ∀ q ∈ points, Pending w.met q → q ∈ without p.kind p.nativeId points := by
    rintro q hq ⟨c, seq, hline⟩
    refine List.mem_filter.mpr ⟨hq, ?_⟩
    rw [decide_eq_true_eq]
    intro hname
    obtain ⟨entry, hentry, rfl⟩ := List.mem_map.mp (hs.points.mem_iff.mp hq)
    have hid := (hs.matches_iff hp entry hentry).mp hname
    refine hnone _ hline ?_
    rw [splitOn_hitLine_id (hs.code_ne h.met hq (by decide)), ← hid]
    rfl
  refine wp_removeNativeBreakpoint_live h hpending fun w₁ hw₁ => ?_
  rw [wp_bind, wp_attempt]
  refine wp_verifyNativeBreakpointsWith_live hw₁ (hs.clear hp).nodup (hs.expected_clear hp) fun w₂ hw₂ => ?_
  rw [wp_bind, wp_attempt]
  refine wp_uninstallSnapshotSpec_live hw₂ (hs.vacant_cleared hp) fun w₃ hw₃ => ?_
  rw [wp_bind, wp_modify, wp_pure, hw₃.here.bridge]
  exact ⟨_, _, hw₃.rebridge rfl, hs.clear hp⟩

theorem wp_clearBreakpoint_live {params : Json} (h : Live b points specs past w) (hs : Synced b points specs)
    (hhealthy : b.debuggerFatal = none) (hnone : ∀ id, requiredNum params "id" = .ok id → NoneQueued id w.met) :
    wp (clearBreakpoint choose params) (fun _ => Kept b past) (fun _ => Kept b past) w := by
  have hsame : Kept b past w := ⟨b, points, specs, h, hs, hhealthy, rfl, rfl⟩
  unfold clearBreakpoint
  rw [wp_bind]
  refine wp_requireDebuggerHealthy (by rw [h.here.bridge]; exact hhealthy) ?_
  rw [wp_bind]
  rcases hid : requiredNum params "id" with e | id
  · exact hsame
  rw [ofExcept, wp_pure]
  refine wp_mono (wp_clearId_live h hs (hnone id hid)) ?_ ?_
  · rintro - w' ⟨ps, ss, hlive, hsynced⟩
    exact ⟨cleared b id, ps, ss, hlive, hsynced, hhealthy, rfl, rfl⟩
  · rintro - w' ⟨-, rfl⟩
    exact hsame

theorem requiredNum_id {id : ℕ} (h : id < 2 ^ 64) : requiredNum (.obj [("id", .nat id)]) "id" = .ok id := by
  simp only [requiredNum, optionalNum, Json.get_obj, OrdMap.find?, if_true, Json.asU64_nat h, orError]
  rfl

theorem wp_clearEach_live (ids : List ℕ) :
    ∀ {b : Bridge} {points : List NativePoint} {specs : List (ℕ × List SpecValue)} {w : World},
      Live b points specs past w → Synced b points specs → b.debuggerFatal = none → (∀ id ∈ ids, id < 2 ^ 64) →
      SafeClears choose ids w →
      wp (clearEach choose ids) (fun _ => Kept b past) (fun _ => Kept b past) w := by
  induction ids with
  | nil =>
    intro b points specs w h hs hhealthy _ _
    exact ⟨b, points, specs, h, hs, hhealthy, rfl, rfl⟩
  | cons id ids ih =>
    intro b points specs w h hs hhealthy hids hsafe
    rw [List.forall_mem_cons] at hids
    obtain ⟨hnone, hsafe'⟩ := hsafe
    rw [clearEach, clearBreakpoint, wp_bind, wp_bind]
    refine wp_requireDebuggerHealthy (by rw [h.here.bridge]; exact hhealthy) ?_
    rw [requiredNum_id hids.1, ofExcept, wp_bind, wp_pure]
    refine wp_mono (wp_after (wp_clearId_live h hs hnone)) ?_ ?_
    · rintro - w' ⟨hafter, ps, ss, hlive, hsynced⟩
      rw [hafter] at hsafe'
      have hrest := ih hlive hsynced hhealthy hids.2 hsafe'
      exact hrest
    · rintro - w' ⟨-, -, rfl⟩
      exact ⟨b, points, specs, h, hs, hhealthy, rfl, rfl⟩

theorem wp_clearAllBreakpoints_live (h : Live b points specs past w) (hs : Synced b points specs)
    (hhealthy : b.debuggerFatal = none) (hsafe : SafeClears choose (b.breakpoints.map Prod.fst) w) :
    wp (clearAllBreakpoints choose) (fun _ => Kept b past) (fun _ => Kept b past) w := by
  have hids : ∀ id ∈ b.breakpoints.map Prod.fst, id < 2 ^ 64 := by
    intro id hid
    obtain ⟨entry, hentry, rfl⟩ := List.mem_map.mp hid
    exact (hs.below entry hentry).trans hs.next
  unfold clearAllBreakpoints
  rw [wp_bind]
  refine wp_requireDebuggerHealthy (by rw [h.here.bridge]; exact hhealthy) ?_
  rw [wp_bind, wp_get, wp_bind, h.here.bridge]
  exact wp_clearEach_live _ h hs hhealthy hids hsafe

/-! ## Runs that keep the account -/

/-- The state of a run: nothing is out of step, and the account adds up. -/
structure Running (s : List Poll × World) : Prop where
  live : Live s.2.bridge s.2.native.points s.2.native.specs s.2.history s.2
  synced : Synced s.2.bridge s.2.native.points s.2.native.specs
  healthy : s.2.bridge.debuggerFatal = none
  ledger : Ledger s.1 (reportedDrops s.1) s.2

theorem Live.running {polls : List Poll} (h : Live b points specs past w) (hs : Synced b points specs)
    (hhealthy : b.debuggerFatal = none) (hledger : Ledger polls (reportedDrops polls) w) : Running (polls, w) := by
  obtain ⟨⟨rfl, rfl, rfl⟩, hq, horderly, -⟩ := h
  exact ⟨⟨⟨rfl, rfl, rfl⟩, hq, horderly, List.prefix_rfl⟩, hs, hhealthy, hledger⟩

theorem Kept.running {polls : List Poll} {w' : World} (h : Kept w.bridge w.history w')
    (hledger : Ledger polls (reportedDrops polls) w) : Running (polls, w') := by
  obtain ⟨b', ps, ss, hlive, hsynced, hhealthy, hevents, hlast⟩ := h
  refine hlive.running hsynced hhealthy (hledger.keep ?_ ?_ hlive.past)
  · rw [hlive.here.bridge, hevents]
  · rw [hlive.here.bridge, hlast]

/-- The world after a drain that was not reported yet. -/
structure Unreported (polls : List Poll) (dropped : ℕ) (w : World) : Prop where
  live : Live w.bridge w.native.points w.native.specs w.history w
  synced : Synced w.bridge w.native.points w.native.specs
  healthy : w.bridge.debuggerFatal = none
  ledger : Ledger polls (reportedDrops polls + dropped) w

theorem Unreported.running {polls : List Poll} (h : Unreported polls 0 w) : Running (polls, w) :=
  ⟨h.live, h.synced, h.healthy, h.ledger⟩

theorem Running.drain {polls : List Poll} {Q : ℕ → World → Prop} {E : BridgeError → World → Prop}
    (h : Running (polls, w))
    (hQ : ∀ w', Unreported polls w.met.native.dropped w' → Q w.met.native.dropped w') :
    wp (drainDebugEvents choose) Q E w := by
  refine wp_drainDebugEvents h.live h.synced fun events hf => hQ _ ?_
  have hlive := h.live.met.drained hf.all
  obtain ⟨⟨hbridge, hpoints, hspecs⟩, hq, horderly, -⟩ := hlive
  refine ⟨⟨⟨rfl, rfl, rfl⟩, hq, horderly, List.prefix_rfl⟩, ?_, h.healthy, h.ledger.fetch hf h.live.met.past⟩
  rw [hpoints, hspecs]
  exact h.synced.rebridge rfl rfl

theorem Running.step_of_wp {s : List Poll × World} {op : DebugOp} (hlog : ∀ reply, op.logged reply = [])
    (h : wp (op.perform choose) (fun _ w' => Running (s.1, w')) (fun _ w' => Running (s.1, w')) s.2) :
    Running (op.step choose s) := by
  unfold wp at h
  unfold DebugOp.step
  cases hrun : op.perform choose s.2 with
  | ok reply w' =>
    rw [hrun] at h
    simp only [hlog, List.append_nil]
    exact h
  | error e w' =>
    rw [hrun] at h
    exact h

theorem running_poll {s : List Poll × World} {params : Json} (h : Running s)
    (hsafe : DebugOp.Safe choose s.2 (.poll params)) : Running (DebugOp.step choose s (.poll params)) := by
  have hwp : wp (pollEvents choose params)
      (fun reply w' => Running (s.1 ++ (DebugOp.poll params).logged reply, w'))
      (fun _ w' => Running (s.1, w')) s.2 := by
    unfold pollEvents
    rw [wp_bind]
    refine wp_requireDebuggerHealthy h.healthy ?_
    rw [wp_bind]
    refine Running.drain h fun w' hw' => ?_
    rw [wp_bind]
    rcases hfilter : optionalNum params "breakpoint_id" with e | filter
    · have hzero := hsafe fun filter hok => by rw [hfilter] at hok; cases hok
      rw [hzero] at hw'
      exact hw'.running
    rw [ofExcept, wp_pure, wp_bind, wp_get, wp_bind, wp_modify, wp_pure]
    have hname : pollFilter params = filter := by
      rw [pollFilter, hfilter]
    have hreported : reportedDrops (s.1 ++ [⟨filter, w'.bridge.debugEvents.filter (wanted filter),
        s.2.met.native.dropped⟩]) = reportedDrops s.1 + s.2.met.native.dropped := by
      simp [reportedDrops]
    have hledger := hw'.ledger.take filter s.2.met.native.dropped
    rw [← hreported] at hledger
    have hlive : Live (taken w'.bridge filter) w'.native.points w'.native.specs w'.history
        { w' with bridge := taken w'.bridge filter } := hw'.live.rebridge rfl
    rw [DebugOp.logged, hname]
    exact hlive.running (hw'.synced.rebridge rfl rfl) hw'.healthy hledger
  unfold wp at hwp
  unfold DebugOp.step
  cases hrun : (DebugOp.poll params).perform choose s.2 with
  | ok reply w' =>
    rw [show pollEvents choose params s.2 = _ from hrun] at hwp
    exact hwp
  | error e w' =>
    rw [show pollEvents choose params s.2 = _ from hrun] at hwp
    exact hwp

theorem running_step (hnames : Names choose) {s : List Poll × World} {op : DebugOp} (h : Running s)
    (hsafe : op.Safe choose s.2) : Running (op.step choose s) := by
  have hkept : ∀ {w' : World}, Kept s.2.bridge s.2.history w' → Running (s.1, w') := fun hw' => hw'.running h.ledger
  cases op with
  | set params =>
    refine .step_of_wp (fun _ => rfl) ?_
    exact wp_mono (wp_setBreakpoint_live hnames h.live h.synced h.healthy) (fun _ _ => hkept) fun _ _ => hkept
  | clear params =>
    refine .step_of_wp (fun _ => rfl) ?_
    exact wp_mono (wp_clearBreakpoint_live h.live h.synced h.healthy hsafe) (fun _ _ => hkept) fun _ _ => hkept
  | clearAll =>
    refine .step_of_wp (fun _ => rfl) ?_
    exact wp_mono (wp_clearAllBreakpoints_live h.live h.synced h.healthy hsafe) (fun _ _ => hkept) fun _ _ => hkept
  | poll params => exact running_poll h hsafe
  | status =>
    refine .step_of_wp (fun _ => rfl) ?_
    have hzero : s.2.met.native.dropped = 0 := hsafe
    show wp (OpenmsxBridge.status choose) _ _ s.2
    unfold OpenmsxBridge.status
    rw [wp_bind]
    refine Running.drain h fun w' hw' => ?_
    rw [hzero] at hw'
    rw [wp_bind, wp_get, wp_pure]
    exact hw'.running
  | prepare operation =>
    refine .step_of_wp (fun _ => rfl) ?_
    have hzero : s.2.met.native.dropped = 0 := hsafe
    show wp (prepareTemporalRequest choose operation) _ _ s.2
    unfold prepareTemporalRequest
    rw [wp_bind]
    refine wp_requireDebuggerHealthy h.healthy ?_
    rw [wp_bind]
    refine Running.drain h fun w' hw' => ?_
    rw [hzero] at hw'
    rw [wp_bind, wp_get, wp_bind, require']
    split_ifs
    · exact hw'.running
    · exact hw'.running
  | guest =>
    refine .step_of_wp (fun _ => rfl) ?_
    show Running (s.1, s.2.met)
    have hmet := h.live.met
    refine hmet.running h.synced h.healthy (h.ledger.keep ?_ ?_ hmet.past)
    · rw [hmet.here.bridge]
    · rw [hmet.here.bridge]

theorem step_world {s : List Poll × World} (op : DebugOp) :
    (op.step choose s).2 = after (op.perform choose) s.2 := by
  unfold DebugOp.step after
  cases op.perform choose s.2 with
  | ok reply w' => rfl
  | error e w' => rfl

theorem running_run (hnames : Names choose) (ops : List DebugOp) :
    ∀ {s : List Poll × World}, Running s → SafeRun choose s.2 ops → Running (runDebug choose s ops) := by
  induction ops with
  | nil =>
    intro s h _
    exact h
  | cons op ops ih =>
    intro s h hsafe
    refine @ih (op.step choose s) (running_step hnames h hsafe.1) ?_
    rw [step_world]
    exact hsafe.2

/-! ## What a run delivers -/

def lineSeq (l : List Char) : ℕ := ((l.splitOn '|').head?.bind InputMovie.parseU64).getD 0

/-- The numbers of the hits that have not been dropped: returned, waiting in the bridge, and waiting in the queue. -/
def retained (polls : List Poll) (w : World) : List ℕ :=
  (returnedEvents polls ++ w.bridge.debugEvents).map Event.hitSeq ++ w.native.queue.map lineSeq

/-- No hit is lost: each is retained once, or counted once as dropped, by a poll or still inside openMSX. -/
structure Delivered (polls : List Poll) (w : World) : Prop where
  healthy : w.bridge.debuggerFatal = none
  once : (retained polls w).Nodup
  hits : ∀ n ∈ retained polls w, 1 ≤ n ∧ n ≤ w.history.length
  account : w.history.length = (retained polls w).length + (reportedDrops polls + w.native.dropped)
  genuine : ∀ e ∈ returnedEvents polls, Genuine w e
  increasing : ∀ filter, ((returnedTo filter polls).map Event.hitSeq).Pairwise (· < ·)

theorem Running.lineSeq_queue {s : List Poll × World} (h : Running s) :
    s.2.native.queue.map lineSeq =
      List.range' (s.2.bridge.lastHitSeq + s.2.native.dropped + 1) s.2.native.queue.length := by
  refine List.ext_getElem? fun i => ?_
  rw [List.getElem?_map]
  rcases hl : s.2.native.queue[i]? with _ | l
  · have hi := List.getElem?_eq_none_iff.mp hl
    rw [Option.map_none, List.getElem?_eq_none_iff.mpr (by simpa using hi)]
  · have hi := (List.getElem?_eq_some_iff.mp hl).1
    obtain ⟨p, c, -, -, -, hmem, rfl⟩ := h.live.queue.lines i l hl
    have hspan := h.live.queue.span
    have hfew := h.live.orderly.few 0
    rw [List.range_zero, List.map_nil, List.sum_nil] at hfew
    have hbound : s.2.bridge.lastHitSeq + s.2.native.dropped + 1 + i < 2 ^ 64 := by omega
    rw [Option.map_some, List.getElem?_range' hi, Nat.one_mul, lineSeq,
      splitOn_hitLine (h.synced.code_ne h.live hmem (by decide)), hitFields, List.head?_cons, Option.bind_some,
      parseU64_decimal hbound, Option.getD_some]

theorem Running.delivered {s : List Poll × World} (h : Running s) : Delivered s.1 s.2 := by
  have hqueue := h.lineSeq_queue
  have hspan := h.live.queue.span
  have hhistory := h.live.queue.history
  have hcount := h.ledger.count
  refine ⟨h.healthy, ?_, ?_, ?_, fun e he => h.ledger.genuine e (List.mem_append_left _ he), h.ledger.increasing⟩
  · rw [retained, hqueue, List.nodup_append]
    refine ⟨h.ledger.distinct, List.nodup_range' , ?_⟩
    intro n hn n' hn'
    obtain ⟨e, he, rfl⟩ := List.mem_map.mp hn
    have hle := h.ledger.bound e he
    rw [List.mem_range'_1] at hn'
    omega
  · intro n hn
    rw [retained, hqueue, List.mem_append] at hn
    rcases hn with hn | hn
    · obtain ⟨e, he, rfl⟩ := List.mem_map.mp hn
      obtain ⟨p, c, -, hpos, -⟩ := h.ledger.genuine e he
      have hle := h.ledger.bound e he
      omega
    · rw [List.mem_range'_1] at hn
      omega
  · rw [retained, List.length_append, List.length_map, List.length_append, List.length_map]
    omega

theorem running_new (regionSizes : MemoryType → ℕ) (launchId : Option String) (turns : ℕ → Turn)
    (h : Orderly (World.new (Bridge.new regionSizes launchId) turns)) :
    Running ([], World.new (Bridge.new regionSizes launchId) turns) := by
  refine ⟨⟨⟨rfl, rfl, rfl⟩, ⟨nofun, rfl, rfl, fun _ => rfl, rfl, nofun⟩, h, List.prefix_rfl⟩,
    synced_new regionSizes launchId, rfl, ?_⟩
  exact ⟨rfl, List.nodup_nil, nofun, nofun, List.Pairwise.nil, fun _ => List.Pairwise.nil, nofun⟩

/-- Whatever the guest hits and the client asks for, in whatever order: as long as no breakpoint is cleared while a hit
of it waits inside openMSX, and nothing but a poll drains drops, every hit is delivered and the debugger stays
healthy. -/
theorem hits_delivered (choose : Chooser) (hnames : Names choose) (regionSizes : MemoryType → ℕ)
    (launchId : Option String) (turns : ℕ → Turn)
    (horderly : Orderly (World.new (Bridge.new regionSizes launchId) turns)) (ops : List DebugOp)
    (hsafe : SafeRun choose (World.new (Bridge.new regionSizes launchId) turns) ops) :
    let s := runDebug choose ([], World.new (Bridge.new regionSizes launchId) turns) ops
    Delivered s.1 s.2 :=
  (running_run hnames ops (running_new regionSizes launchId turns horderly) hsafe).delivered

/-! ## Two runs -/

theorem names_longerNames : Names longerNames := by
  refine ⟨fresh_longerNames, fun count kind used => ?_⟩
  have hdigits : (List.replicate (1 + used.flatten.length) '1').all Char.isDigit = true := by
    rw [List.all_eq_true]
    intro c hc
    rw [List.eq_of_mem_replicate hc]
    decide
  have hne : (List.replicate (1 + used.flatten.length) '1').isEmpty = false := by
    rw [Nat.add_comm, List.replicate_succ]
    rfl
  cases kind with
  | exec => simp only [validNativeId, longerNames, Kind.watch, hdigits, hne]; rfl
  | read => simp only [validNativeId, longerNames, Kind.watch, hdigits, hne]; rfl
  | write => simp only [validNativeId, longerNames, Kind.watch, hdigits, hne]; rfl

def stoppedAt (pc : ℕ) : Capture :=
  ⟨pc, 0, 0, [0, 0, 0, 0, 0, 0, 0, 0, 0, 0, pc, 0, 0, 0, 0, 0], fun _ _ length => List.replicate length 0⟩

def firstPoint : NativePoint := ⟨['b', 'p', '#', '1'], .exec, 0x4000, 0x4000, 1⟩

def hitting (count : ℕ) : ℕ → Turn := fun i =>
  ⟨if i = 3 then List.replicate count (firstPoint, stoppedAt 0x4000) else [], .ok 0⟩

def freshWorld (count : ℕ) : World := World.new (Bridge.new (fun _ => 65536) none) (hitting count)

theorem orderly_freshWorld {count : ℕ} (h : count < 2 ^ 64) : Orderly (freshWorld count) := by
  refine ⟨fun i => ⟨0, rfl⟩, fun i hit hhit => ?_, fun n => ?_⟩
  · have hmem : hit = (firstPoint, stoppedAt 0x4000) := by
      simp only [freshWorld, World.new, hitting] at hhit
      split_ifs at hhit
      · exact List.eq_of_mem_replicate hhit
      · cases hhit
    rw [hmem]
    exact ⟨rfl, by decide, by decide, by decide, nofun, fun _ _ length => List.length_replicate⟩
  · have hsum : ∀ n, ((List.range n).map fun i => ((freshWorld count).turns i).hits.length).sum ≤
        if 3 < n then count else 0 := by
      intro n
      induction n with
      | zero => exact Nat.le_refl 0
      | succ n ih =>
        have hlast : ((freshWorld count).turns n).hits.length = if n = 3 then count else 0 := by
          simp only [freshWorld, World.new, hitting]
          split_ifs <;> simp
        rw [List.range_succ, List.map_append, List.sum_append, List.map_singleton, List.sum_singleton, hlast]
        split_ifs at ih ⊢ <;> omega
    have hle := hsum n
    have hzero : (freshWorld count).native.seq = 0 := rfl
    rw [hzero]
    split_ifs at hle <;> omega

/-- A hit that is polled before its breakpoint is cleared. -/
theorem hits_delivered_once :
    Names longerNames ∧ Orderly (freshWorld 1) ∧
      SafeRun longerNames (freshWorld 1)
        [.set (.obj [("start", .nat 0x4000)]), .guest, .poll (.obj []), .clear (.obj [("id", .nat 1)])] ∧
      Delivered
        (runDebug longerNames ([], freshWorld 1)
          [.set (.obj [("start", .nat 0x4000)]), .guest, .poll (.obj []), .clear (.obj [("id", .nat 1)])]).1
        (runDebug longerNames ([], freshWorld 1)
          [.set (.obj [("start", .nat 0x4000)]), .guest, .poll (.obj []), .clear (.obj [("id", .nat 1)])]).2 := by
  have hsafe : SafeRun longerNames (freshWorld 1)
      [.set (.obj [("start", .nat 0x4000)]), .guest, .poll (.obj []), .clear (.obj [("id", .nat 1)])] := by
    refine ⟨trivial, trivial, fun hnone => absurd rfl (hnone none), fun id hid => ?_, trivial⟩
    obtain rfl : 1 = id := Except.ok.inj ((requiredNum_id (by decide)).symm.trans hid)
    unfold NoneQueued
    decide +kernel
  have horderly : Orderly (freshWorld 1) := orderly_freshWorld (by decide)
  exact ⟨names_longerNames, horderly, hsafe,
    hits_delivered longerNames names_longerNames (fun _ => 65536) none (hitting 1) horderly _ hsafe⟩

/-- The breakpoint of an event that the bridge gave the debugger up for. -/
def unknownBreakpoint : Option FatalReason → Option ℕ
  | some (.eventValidation (.unknownId id)) => some id
  | _ => none

/-- A breakpoint is hit, cleared, and the hit is polled: the debugger is given up. -/
theorem hit_cleared_fatal :
    Names longerNames ∧ Orderly (freshWorld 1) ∧
      unknownBreakpoint (runDebug longerNames ([], freshWorld 1)
        [.set (.obj [("start", .nat 0x4000)]), .guest, .clear (.obj [("id", .nat 1)]),
          .poll (.obj [])]).2.bridge.debuggerFatal = some 1 :=
  ⟨names_longerNames, orderly_freshWorld (by decide), by decide +kernel⟩

end methods

end Emucap.OpenmsxBridge
