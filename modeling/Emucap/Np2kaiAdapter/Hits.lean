import Emucap.Np2kaiAdapter.Breakpoints

/-!
# Taking the hits of the core

A drain takes the hits that the core hands out, one event for each, and a full queue gives up its oldest events. It does
so as long as all snapshots can be read (`Readable`) and the count of the dropped events does not overflow.
-/

namespace Emucap.Np2kaiAdapter

open Emucap.Lib

variable {m : Machine} {specs : List SnapshotSpec}

def Machine.skipReads (m : Machine) (n : ℕ) : Machine :=
  { m with answers := { m.answers with reads := fun i => m.answers.reads (i + n) } }

/-! ## Snapshots -/

theorem get_run : (get : Np2kai Machine) m = .ok m m := rfl

theorem modifyHost_run (f : Host → Host) : modifyHost f m = .ok () (m.withHost (f m.host)) := rfl

theorem captureSnapshot_ok {spec : SnapshotSpec} (hfits : spec.Fits) (hread : (m.answers.reads 0).isSome) :
    ∃ item, captureSnapshot spec m = .ok item (m.skipReads 1) := by
  obtain ⟨⟨region, hregion, hrange⟩, hpos⟩ := hfits
  obtain ⟨bytes, hbytes⟩ := Option.isSome_iff_exists.mp hread
  have hspace := memoryRegion_fits hregion
  have hdebug : debugReadMemory m = .ok (some bytes) (m.skipReads 1) := by
    rw [← hbytes]
    rfl
  have hread' : readAbsolute (region.base + spec.address) spec.length m = .ok bytes (m.skipReads 1) := by
    rw [readAbsolute, demand_bind_run_of (by omega), bind_run_of_ok hdebug]
    rfl
  rw [captureSnapshot, hregion, bind_run_of_ok (show (orThrow _ (some region) : Np2kai _) m = .ok region m from rfl),
    bind_run_of_ok hread']
  exact ⟨_, rfl⟩

theorem captureSnapshots_ok (hfits : ∀ spec ∈ specs, spec.Fits)
    (hreads : ∀ i < specs.length, (m.answers.reads i).isSome) :
    ∃ items, captureSnapshots specs m = .ok items (m.skipReads specs.length) := by
  induction specs generalizing m with
  | nil => exact ⟨[], rfl⟩
  | cons spec specs ih =>
    rw [List.forall_mem_cons] at hfits
    obtain ⟨item, hitem⟩ := captureSnapshot_ok hfits.1 (hreads 0 (by simp))
    have hrest : ∀ i < specs.length, ((m.skipReads 1).answers.reads i).isSome := fun i hi =>
      hreads (i + 1) (by simp only [List.length_cons]; omega)
    obtain ⟨items, hitems⟩ := ih hfits.2 hrest
    refine ⟨item :: items, ?_⟩
    have hskip : (m.skipReads 1).skipReads specs.length = m.skipReads (spec :: specs).length := by
      simp only [Machine.skipReads, List.length_cons, Nat.add_assoc]
    rw [captureSnapshots, bind_run_of_ok hitem, bind_run_of_ok hitems, hskip]
    rfl

/-! ## Single hits -/

def Renders (native : NativeEvent) (event : Json) : Prop := ∃ snapshot, event = eventValue native snapshot

def SnapshotsFit (host : Host) : Prop := ∀ e ∈ host.breakpoints, ∀ spec ∈ e.2.snapshots, spec.Fits

theorem snapshotsOf_fit {host : Host} (h : SnapshotsFit host) (native : NativeEvent) :
    ∀ spec ∈ snapshotsOf host.breakpoints native, spec.Fits := by
  rw [snapshotsOf]
  cases hfind : OrdMap.find? native.breakpointId host.breakpoints with
  | none => exact fun _ hmem => absurd hmem List.not_mem_nil
  | some breakpoint => exact h _ (OrdMap.mem_of_find? hfind)

theorem recordHit_ok {native : NativeEvent} (hfit : SnapshotsFit m.host)
    (hreads : ∀ i < (snapshotsOf m.host.breakpoints native).length, (m.answers.reads i).isSome) :
    ∃ event, Renders native event ∧ recordHit native m =
      .ok () ((m.skipReads (snapshotsOf m.host.breakpoints native).length).withHost
        (enqueuePendingEvent event m.host)) := by
  rw [recordHit, bind_run_of_ok get_run]
  by_cases hnone : snapshotsOf m.host.breakpoints native = []
  · rw [if_pos hnone, hnone]
    exact ⟨_, ⟨none, rfl⟩, rfl⟩
  · obtain ⟨items, hitems⟩ := captureSnapshots_ok (snapshotsOf_fit hfit native) hreads
    rw [if_neg hnone, bind_run_of_ok hitems, modifyHost_run]
    exact ⟨_, ⟨some items, rfl⟩, rfl⟩

/-! ## The queue -/

/-- What an event does to a queue: it stands behind the others, and the front of a full one goes. -/
structure Queued (host host' : Host) (events evicted : List Json) : Prop where
  queue : host.pendingEvents ++ events = evicted ++ host'.pendingEvents
  bounded : host'.pendingEvents.length ≤ maxPendingEvents
  count : evicted.length = host.pendingEvents.length + events.length - maxPendingEvents
  dropped : host'.droppedPendingEvents = host.droppedPendingEvents + evicted.length
  rest : host' = { host with pendingEvents := host'.pendingEvents, droppedPendingEvents := host'.droppedPendingEvents }

theorem enqueue_queued {host : Host} {event : Json} (hbounded : host.pendingEvents.length ≤ maxPendingEvents)
    (hroom : host.droppedPendingEvents + (host.pendingEvents.length + 1 - maxPendingEvents) < 2 ^ 64) :
    ∃ evicted, Queued host (enqueuePendingEvent event host) [event] evicted := by
  have hmax : maxPendingEvents = 256 := rfl
  by_cases hfull : maxPendingEvents ≤ host.pendingEvents.length
  · cases hp : host.pendingEvents with
    | nil => rw [hp, List.length_nil] at hfull; omega
    | cons front behind =>
      rw [hp, List.length_cons] at hfull hbounded hroom
      refine ⟨[front], ?_, ?_, ?_, ?_, ?_⟩
      · simp [enqueuePendingEvent, hp, hfull]
      · simp only [enqueuePendingEvent, hp, List.length_cons, if_pos hfull, List.tail_cons, List.length_append,
          List.length_nil]
        omega
      · simp only [hp, List.length_cons, List.length_nil]
        omega
      · simp only [enqueuePendingEvent, hp, List.length_cons, if_pos hfull, List.length_nil, saturatingAdd]
        omega
      · rw [enqueuePendingEvent, hp, List.length_cons, if_pos hfull]
  · refine ⟨[], ?_, ?_, ?_, ?_, ?_⟩
    · rw [enqueuePendingEvent, if_neg hfull]
      rfl
    · rw [enqueuePendingEvent, if_neg hfull]
      simp only [List.length_append, List.length_cons, List.length_nil]
      omega
    · simp only [List.length_cons, List.length_nil]
      omega
    · rw [enqueuePendingEvent, if_neg hfull]
      rfl
    · rw [enqueuePendingEvent, if_neg hfull]

theorem Queued.nil (host : Host) (hbounded : host.pendingEvents.length ≤ maxPendingEvents) : Queued host host [] [] :=
  ⟨by simp, hbounded, by simp [Nat.sub_eq_zero_of_le hbounded], rfl, rfl⟩

theorem Queued.trans {host host' host'' : Host} {events events' evicted evicted' : List Json}
    (h : Queued host host' events evicted) (h' : Queued host' host'' events' evicted') :
    Queued host host'' (events ++ events') (evicted ++ evicted') := by
  have hlength := congrArg List.length h.queue
  have hbounded := h.bounded
  have hcount := h.count
  have hcount' := h'.count
  simp only [List.length_append] at hlength
  refine ⟨?_, h'.bounded, ?_, ?_, ?_⟩
  · rw [← List.append_assoc, h.queue, List.append_assoc, h'.queue, List.append_assoc]
  · simp only [List.length_append]
    omega
  · rw [h'.dropped, h.dropped, List.length_append, Nat.add_assoc]
  · rw [h'.rest, h.rest]

/-! ## The loop -/

def takenHits (m : Machine) : List NativeEvent := m.core.hits.take m.answers.polls

def readsNeeded (host : Host) (hits : List NativeEvent) : ℕ :=
  (hits.map fun hit => (snapshotsOf host.breakpoints hit).length).sum

def Readable (m : Machine) : Prop := ∀ i < readsNeeded m.host (takenHits m), (m.answers.reads i).isSome

/-- How many events are dropped from the queue when so many hits are taken. -/
def overflowing (m : Machine) : ℕ := m.host.pendingEvents.length + (takenHits m).length - maxPendingEvents

structure Drained (m m' : Machine) (taken : List NativeEvent) (events evicted : List Json) : Prop where
  hits : m.core.hits = taken ++ m'.core.hits
  rendered : List.Forall₂ Renders taken events
  queued : Queued m.host m'.host events evicted
  core : m'.core = { m.core with hits := m'.core.hits }
  answers : m'.answers.sets = m.answers.sets ∧ m'.answers.clears = m.answers.clears ∧
    m'.answers.dropped = m.answers.dropped

theorem debugPollEvent_none (h : takenHits m = []) : debugPollEvent m = .ok none m := by
  rw [debugPollEvent, bind_run_of_ok get_run]
  unfold takenHits at h
  cases hp : m.answers.polls with
  | zero => rfl
  | succ polls =>
    rw [hp] at h
    cases hh : m.core.hits with
    | nil => rfl
    | cons hit hits => rw [hh] at h; cases h

def Machine.polled (m : Machine) : Machine :=
  { m with
    core := { m.core with hits := m.core.hits.tail },
    answers := { m.answers with polls := m.answers.polls - 1 } }

theorem debugPollEvent_some {hit : NativeEvent} {hits : List NativeEvent} (h : takenHits m = hit :: hits) :
    debugPollEvent m = .ok (some hit) m.polled ∧ m.core.hits = hit :: m.polled.core.hits ∧
      takenHits m.polled = hits := by
  unfold takenHits at h ⊢
  cases hp : m.answers.polls with
  | zero => rw [hp] at h; cases h
  | succ polls =>
    cases hh : m.core.hits with
    | nil => rw [hh, List.take_nil] at h; cases h
    | cons hit' hits' =>
      rw [hp, hh, List.take_succ_cons, List.cons.injEq] at h
      obtain ⟨rfl, hrest⟩ := h
      refine ⟨?_, ?_, ?_⟩
      · rw [debugPollEvent, bind_run_of_ok get_run, hp, hh, Machine.polled, hp, hh]
        rfl
      · rw [Machine.polled, hh]
        rfl
      · rw [Machine.polled, hp, hh]
        exact hrest

theorem readsNeeded_rest {host : Host} (h : host.breakpoints = m.host.breakpoints) (hits : List NativeEvent) :
    readsNeeded host hits = readsNeeded m.host hits := by
  rw [readsNeeded, readsNeeded, h]

theorem drainHits_ok {rounds : ℕ} (hrounds : m.core.hits.length < rounds) (hfit : SnapshotsFit m.host)
    (hbounded : m.host.pendingEvents.length ≤ maxPendingEvents) (hread : Readable m)
    (hroom : m.host.droppedPendingEvents + overflowing m < 2 ^ 64) :
    ∃ m' events evicted, drainHits rounds m = .ok () m' ∧ Drained m m' (takenHits m) events evicted := by
  induction rounds generalizing m with
  | zero => omega
  | succ rounds ih =>
    cases htaken : takenHits m with
    | nil =>
      refine ⟨m, [], [], ?_, rfl, .nil, Queued.nil m.host hbounded, rfl, rfl, rfl, rfl⟩
      rw [drainHits, bind_run_of_ok (debugPollEvent_none htaken)]
      rfl
    | cons hit hits =>
      obtain ⟨hpoll, hhits, hrest⟩ := debugPollEvent_some htaken
      have hspecs : ∀ i < (snapshotsOf m.polled.host.breakpoints hit).length, (m.polled.answers.reads i).isSome := by
        intro i hi
        refine hread i ?_
        rw [htaken, readsNeeded, List.map_cons, List.sum_cons]
        exact Nat.lt_of_lt_of_le hi (Nat.le_add_right _ _)
      have hfitPolled : SnapshotsFit m.polled.host := hfit
      obtain ⟨event, hevent, hrecord⟩ := recordHit_ok hfitPolled hspecs
      rw [overflowing, htaken, List.length_cons] at hroom
      have hqueue : ∃ dropped, Queued m.host (enqueuePendingEvent event m.host) [event] dropped :=
        enqueue_queued hbounded (by omega)
      obtain ⟨dropped, hqueued⟩ := hqueue
      have hcount := hqueued.count
      have hdropped := hqueued.dropped
      have hlength := congrArg List.length hqueued.queue
      have hkept : (enqueuePendingEvent event m.host).breakpoints = m.host.breakpoints := by rw [hqueued.rest]
      simp only [List.length_append, List.length_singleton] at hlength hcount
      -- the machine with which the loop goes on
      obtain ⟨next, hnext⟩ : ∃ next, next = (m.polled.skipReads
        (snapshotsOf m.host.breakpoints hit).length).withHost (enqueuePendingEvent event m.host) := ⟨_, rfl⟩
      have hhost : next.host = enqueuePendingEvent event m.host := by rw [hnext]; rfl
      have htakenNext : takenHits next = hits := by rw [hnext]; exact hrest
      have hreadNext : Readable next := by
        intro i hi
        have hreads : next.answers.reads i = m.answers.reads (i + (snapshotsOf m.host.breakpoints hit).length) := by
          rw [hnext]
          rfl
        have hneeded : readsNeeded next.host hits = readsNeeded m.host hits :=
          readsNeeded_rest (by rw [hhost, hkept]) hits
        rw [htakenNext, hneeded] at hi
        rw [hreads]
        refine hread _ ?_
        rw [htaken, readsNeeded, List.map_cons, List.sum_cons]
        rw [readsNeeded] at hi
        omega
      have hroomNext : next.host.droppedPendingEvents + overflowing next < 2 ^ 64 := by
        rw [overflowing, htakenNext, hhost]
        omega
      have hroundsNext : next.core.hits.length < rounds := by
        have hless : next.core.hits = m.polled.core.hits := by rw [hnext]; rfl
        rw [hhits, List.length_cons] at hrounds
        rw [hless]
        omega
      have hfitNext : SnapshotsFit next.host := by
        rw [SnapshotsFit, hhost, hkept]
        exact hfit
      obtain ⟨m', events, evicted, hrun, hdrained⟩ := ih hroundsNext hfitNext (by rw [hhost]; exact hqueued.bounded)
        hreadNext hroomNext
      rw [htakenNext] at hdrained
      refine ⟨m', event :: events, dropped ++ evicted, ?_, ?_, .cons hevent hdrained.rendered, ?_, ?_, ?_⟩
      · rw [drainHits, bind_run_of_ok hpoll]
        dsimp only
        rw [bind_run_of_ok hrecord]
        rw [hnext] at hrun
        exact hrun
      · have hsame : next.core.hits = m.polled.core.hits := by rw [hnext]; rfl
        rw [hhits, ← hsame, hdrained.hits]
        rfl
      · have hboth := hqueued.trans (hhost ▸ hdrained.queued)
        exact hboth
      · rw [hdrained.core, hnext]
        rfl
      · have hanswers := hdrained.answers
        rw [hnext] at hanswers
        exact hanswers

theorem drainNativeEvents_ok (hfit : SnapshotsFit m.host) (hbounded : m.host.pendingEvents.length ≤ maxPendingEvents)
    (hread : Readable m) (hroom : m.host.droppedPendingEvents + overflowing m < 2 ^ 64) :
    ∃ m' events evicted, drainNativeEvents m = .ok () m' ∧ Drained m m' (takenHits m) events evicted := by
  rw [drainNativeEvents, bind_run_of_ok get_run]
  exact drainHits_ok (Nat.lt_succ_self _) hfit hbounded hread hroom

end Emucap.Np2kaiAdapter
