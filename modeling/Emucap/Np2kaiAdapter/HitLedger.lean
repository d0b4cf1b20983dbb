import Emucap.Np2kaiAdapter.Hits
import Mathlib.Data.List.Forall2

/-!
# Requests on the breakpoints of NP2kai

What a request leaves behind: the core has installed what the host knows (`Sound`), and every hit that was taken is
returned, pending or counted as dropped (`Moves`).
-/

namespace Emucap.Np2kaiAdapter

open Emucap.Lib

variable {m m' : Machine} {params : Json}

/-! ## The books -/

structure Sound (m : Machine) : Prop where
  installed : ∀ id, id ∈ m.core.installed.map NativeBreakpoint.id ↔
    id ∈ m.host.breakpoints.map Prod.fst ∨ m.host.breakOnResetId = some id
  apart : ∀ id, m.host.breakOnResetId = some id → id ∉ m.host.breakpoints.map Prod.fst
  numbered : ∀ id ∈ m.core.installed.map NativeBreakpoint.id, id < m.host.nextBreakpointId
  asked : m.core.asked.Pairwise (· < ·)
  below : ∀ id ∈ m.core.asked, id < m.host.nextBreakpointId
  fit : SnapshotsFit m.host
  bounded : m.host.pendingEvents.length ≤ maxPendingEvents

/-- Only the queues differ. -/
structure SameBooks (m m' : Machine) : Prop where
  installed : m'.core.installed = m.core.installed
  asked : m'.core.asked = m.core.asked
  breakpoints : m'.host.breakpoints = m.host.breakpoints
  reset : m'.host.breakOnResetId = m.host.breakOnResetId
  next : m'.host.nextBreakpointId = m.host.nextBreakpointId

theorem Sound.of_same (h : Sound m) (hsame : SameBooks m m')
    (hbounded : m'.host.pendingEvents.length ≤ maxPendingEvents) : Sound m' := by
  obtain ⟨hinstalled, hasked, hbreakpoints, hreset, hnext⟩ := hsame
  refine ⟨?_, ?_, ?_, ?_, ?_, ?_, hbounded⟩
  · rw [hinstalled, hbreakpoints, hreset]
    exact h.installed
  · rw [hbreakpoints, hreset]
    exact h.apart
  · rw [hinstalled, hnext]
    exact h.numbered
  · rw [hasked]
    exact h.asked
  · rw [hasked, hnext]
    exact h.below
  · rw [SnapshotsFit, hbreakpoints]
    exact h.fit

theorem Drained.sameBooks {taken : List NativeEvent} {events evicted : List Json}
    (h : Drained m m' taken events evicted) : SameBooks m m' := by
  refine ⟨?_, ?_, ?_, ?_, ?_⟩
  · rw [h.core]
  · rw [h.core]
  · rw [h.queued.rest]
  · rw [h.queued.rest]
  · rw [h.queued.rest]

/-! ## The hits -/

/-- Where the hits go that a request takes: they are returned, they are pending, or they are dropped and counted.
`reported` is the count that it reports, with what the core has dropped itself. -/
structure Moves (m m' : Machine) (returned : List Json) (reported coreDropped : ℕ) : Prop where
  hits : ∃ taken events evicted, m.core.hits = taken ++ m'.core.hits ∧ List.Forall₂ Renders taken events ∧
    (m.host.pendingEvents ++ events).Perm (returned ++ m'.host.pendingEvents ++ evicted) ∧
    reported + m'.host.droppedPendingEvents = m.host.droppedPendingEvents + evicted.length + coreDropped

/-- Only the books differ. -/
structure SameQueues (m m' : Machine) : Prop where
  hits : m'.core.hits = m.core.hits
  pending : m'.host.pendingEvents = m.host.pendingEvents
  dropped : m'.host.droppedPendingEvents = m.host.droppedPendingEvents

theorem Moves.still (h : SameQueues m m') : Moves m m' [] 0 0 := by
  refine ⟨[], [], [], ?_, .nil, ?_, ?_⟩
  · rw [h.hits]
    rfl
  · rw [h.pending]
    simp
  · rw [h.dropped]
    simp

theorem Drained.moves {taken : List NativeEvent} {events evicted : List Json} (h : Drained m m' taken events evicted) :
    Moves m m' [] 0 0 := by
  refine ⟨taken, events, evicted, h.hits, h.rendered, ?_, ?_⟩
  · rw [h.queued.queue, List.nil_append]
    exact List.perm_append_comm
  · rw [h.queued.dropped, Nat.zero_add, Nat.add_zero]

theorem Moves.then_still {m'' : Machine} {returned : List Json} {reported coreDropped : ℕ}
    (h : Moves m m' returned reported coreDropped) (hsame : SameQueues m' m'') :
    Moves m m'' returned reported coreDropped := by
  obtain ⟨taken, events, evicted, htaken, hrendered, hperm, hcount⟩ := h.hits
  refine ⟨taken, events, evicted, ?_, hrendered, ?_, ?_⟩
  · rw [hsame.hits]
    exact htaken
  · rw [hsame.pending]
    exact hperm
  · rw [hsame.dropped]
    exact hcount

/-! ## Replies -/

abbrev Outcome := EStateM.Result Np2kaiError Machine Json

def Outcome.machine : Outcome → Machine
  | .ok _ m => m
  | .error _ m => m

def Outcome.returned : Outcome → List Json
  | .ok reply _ => ((reply.get "events").bind Json.asArray).getD []
  | .error _ _ => []

/-- The number of dropped events that a reply reports. -/
def Outcome.reported : Outcome → ℕ
  | .ok reply _ => ((reply.get "dropped").bind Json.asU64).getD 0
  | .error _ _ => 0

/-- How many hits the core says, for this reply, that it has dropped. -/
def Outcome.coreDropped (m : Machine) : Outcome → ℕ
  | .ok reply _ => if (reply.get "dropped").isSome then m.answers.dropped else 0
  | .error _ _ => 0

/-- A request leaves the books and the hits in order. -/
structure Settled (m : Machine) (outcome : Outcome) : Prop where
  sound : Sound outcome.machine
  moves : Moves m outcome.machine outcome.returned outcome.reported (outcome.coreDropped m)

theorem settled_error {e : Np2kaiError} (hsound : Sound m') (hmoves : Moves m m' [] 0 0) :
    Settled m (.error e m') := ⟨hsound, hmoves⟩

theorem settled_ok {reply : Json} (hsound : Sound m') (hmoves : Moves m m' [] 0 0)
    (hevents : reply.get "events" = none) (hdropped : reply.get "dropped" = none) : Settled m (.ok reply m') := by
  refine ⟨hsound, ?_⟩
  rw [Outcome.returned, Outcome.reported, Outcome.coreDropped, hevents, hdropped]
  exact hmoves

/-! ## New breakpoints -/

def Machine.started (m : Machine) : Machine := m.withHost { m.host with initialized := true }

theorem ensureInitialized_cases (m : Machine) :
    (∃ e, ensureInitialized m = .error e m) ∨ ensureInitialized m = .ok () m.started := by
  rw [ensureInitialized, bind_run_of_ok get_run]
  by_cases hinitialized : m.host.initialized = true
  · right
    rw [if_pos hinitialized]
    have hsame : m.started = m := by
      obtain ⟨host, core, answers⟩ := m
      obtain ⟨initialized, breakpoints, pending, dropped, next, reset⟩ := host
      cases hinitialized
      rfl
    rw [hsame]
    rfl
  · rw [if_neg hinitialized]
    cases hbefore : m.answers.callbacks.1 with
    | error e => exact .inl ⟨e, rfl⟩
    | ok before =>
      rw [bind_run_of_ok (show (fromExcept (.ok before) : Np2kai _) m = .ok before m from rfl)]
      cases hafter : m.answers.callbacks.2 with
      | error e => exact .inl ⟨e, rfl⟩
      | ok after =>
        rw [bind_run_of_ok (show (fromExcept (.ok after) : Np2kai _) m = .ok after m from rfl)]
        by_cases hsame : after = before
        · exact .inr (by rw [demand_bind_run_of hsame]; rfl)
        · exact .inl ⟨_, demand_bind_run_error hsame⟩

theorem started_same (m : Machine) : SameBooks m m.started := ⟨rfl, rfl, rfl, rfl, rfl⟩

theorem Sound.started (h : Sound m) : Sound m.started := h.of_same (started_same m) h.bounded

/-- The machine after the core was asked for a breakpoint with the next id. -/
def Machine.asking (m : Machine) (installed : List NativeBreakpoint) : Machine :=
  { m with
    host := { m.host with nextBreakpointId := m.host.nextBreakpointId + 1 },
    core := { m.core with asked := m.core.asked ++ [m.host.nextBreakpointId], installed := installed } }

theorem allocate_install {α : Type} {native : ℕ → NativeBreakpoint} (hid : ∀ id, (native id).id = id)
    (k : ℕ → Np2kai α) :
    ((do
      let id ← allocateBreakpointId
      installBreakpoint (native id)
      k id : Np2kai α) m = .error (.core "breakpoint id exhausted") m) ∨
    (∃ e, (do
      let id ← allocateBreakpointId
      installBreakpoint (native id)
      k id : Np2kai α) m = .error e (m.asking m.core.installed)) ∨
    (do
      let id ← allocateBreakpointId
      installBreakpoint (native id)
      k id : Np2kai α) m = k m.host.nextBreakpointId
        (m.asking (m.core.installed ++ [native m.host.nextBreakpointId])) := by
  by_cases hspace : m.host.nextBreakpointId + 1 < 2 ^ 64
  · right
    have hallocate : allocateBreakpointId m = .ok m.host.nextBreakpointId
        (m.withHost { m.host with nextBreakpointId := m.host.nextBreakpointId + 1 }) := by
      rw [allocateBreakpointId, bind_run_of_ok get_run, demand_bind_run_of hspace]
      rfl
    rw [bind_run_of_ok hallocate]
    cases hsets : m.answers.sets with
    | false =>
      left
      refine ⟨.core "NP2kai breakpoint table is full or rejected the request", bind_run_error ?_⟩
      have hset : debugSetBreakpoint (native m.host.nextBreakpointId)
          (m.withHost { m.host with nextBreakpointId := m.host.nextBreakpointId + 1 }) =
          .ok false (m.asking m.core.installed) := by
        rw [debugSetBreakpoint, bind_run_of_ok get_run]
        simp only [Machine.withHost, hsets, Bool.false_eq_true, if_false, hid]
        rfl
      rw [installBreakpoint, bind_run_of_ok hset]
      rfl
    | true =>
      right
      have hset : debugSetBreakpoint (native m.host.nextBreakpointId)
          (m.withHost { m.host with nextBreakpointId := m.host.nextBreakpointId + 1 }) =
          .ok true (m.asking (m.core.installed ++ [native m.host.nextBreakpointId])) := by
        rw [debugSetBreakpoint, bind_run_of_ok get_run]
        simp only [Machine.withHost, hsets, if_true, hid]
        rfl
      have hinstall : installBreakpoint (native m.host.nextBreakpointId)
          (m.withHost { m.host with nextBreakpointId := m.host.nextBreakpointId + 1 }) =
          .ok () (m.asking (m.core.installed ++ [native m.host.nextBreakpointId])) := by
        rw [installBreakpoint, bind_run_of_ok hset]
        rfl
      exact bind_run_of_ok hinstall
  · left
    refine bind_run_error ?_
    rw [allocateBreakpointId, bind_run_of_ok get_run]
    exact demand_bind_run_error hspace

theorem Sound.key_lt (h : Sound m) {id : ℕ} (hid : id ∈ m.host.breakpoints.map Prod.fst) :
    id < m.host.nextBreakpointId := h.numbered id ((h.installed id).mpr (.inl hid))

theorem Sound.reset_lt (h : Sound m) {id : ℕ} (hid : m.host.breakOnResetId = some id) :
    id < m.host.nextBreakpointId := h.numbered id ((h.installed id).mpr (.inr hid))

theorem Sound.asked_next (h : Sound m) :
    (m.core.asked ++ [m.host.nextBreakpointId]).Pairwise (· < ·) ∧
      ∀ id ∈ m.core.asked ++ [m.host.nextBreakpointId], id < m.host.nextBreakpointId + 1 := by
  refine ⟨List.pairwise_append.mpr ⟨h.asked, List.pairwise_singleton _ _, fun id hid id' hid' => ?_⟩, ?_⟩
  · rw [List.mem_singleton.mp hid']
    exact h.below id hid
  · rw [List.forall_mem_append, List.forall_mem_singleton]
    exact ⟨fun id hid => Nat.lt_succ_of_lt (h.below id hid), Nat.lt_succ_self _⟩

theorem Sound.refused (h : Sound m) : Sound (m.asking m.core.installed) :=
  ⟨h.installed, h.apart, fun id hid => Nat.lt_succ_of_lt (h.numbered id hid), h.asked_next.1, h.asked_next.2, h.fit,
    h.bounded⟩

theorem numbered_next (h : Sound m) {native : NativeBreakpoint} (hid : native.id = m.host.nextBreakpointId) :
    ∀ id ∈ (m.core.installed ++ [native]).map NativeBreakpoint.id, id < m.host.nextBreakpointId + 1 := by
  rw [List.map_append, List.map_singleton, List.forall_mem_append, List.forall_mem_singleton, hid]
  exact ⟨fun id hmem => Nat.lt_succ_of_lt (h.numbered id hmem), Nat.lt_succ_self _⟩

def Machine.added (m : Machine) (native : NativeBreakpoint) (breakpoint : DebugBreakpoint) : Machine :=
  (m.asking (m.core.installed ++ [native])).withHost { (m.asking (m.core.installed ++ [native])).host with
    breakpoints := OrdMap.insert m.host.nextBreakpointId breakpoint m.host.breakpoints }

theorem Sound.added (h : Sound m) {native : NativeBreakpoint} {breakpoint : DebugBreakpoint}
    (hid : native.id = m.host.nextBreakpointId) (hfit : ∀ spec ∈ breakpoint.snapshots, spec.Fits) :
    Sound (m.added native breakpoint) := by
  have hkeys : ∀ e ∈ m.host.breakpoints, e.1 < m.host.nextBreakpointId := fun e he =>
    h.key_lt (List.mem_map_of_mem he)
  have hinsert : (m.added native breakpoint).host.breakpoints =
      m.host.breakpoints ++ [(m.host.nextBreakpointId, breakpoint)] := OrdMap.insert_of_forall_lt _ hkeys
  refine ⟨fun id => ?_, fun id hreset => ?_, numbered_next h hid, h.asked_next.1, h.asked_next.2, ?_, h.bounded⟩
  · show id ∈ (m.core.installed ++ [native]).map NativeBreakpoint.id ↔ _ ∨ m.host.breakOnResetId = some id
    rw [hinsert, List.map_append, List.map_append, List.mem_append, List.mem_append, h.installed id, List.map_singleton,
      List.map_singleton, hid]
    tauto
  · have hless := h.reset_lt hreset
    rw [hinsert, List.map_append, List.mem_append, List.map_singleton, List.mem_singleton]
    rintro (hmem | heq)
    · exact h.apart id hreset hmem
    · omega
  · rw [SnapshotsFit, hinsert, List.forall_mem_append, List.forall_mem_singleton]
    exact ⟨h.fit, hfit⟩

theorem addBreakpoint_settled (h : Sound m) {native : ℕ → NativeBreakpoint} {breakpoint : DebugBreakpoint}
    (hid : ∀ id, (native id).id = id) (hfit : ∀ spec ∈ breakpoint.snapshots, spec.Fits) :
    Settled m (addBreakpoint native breakpoint m) := by
  have hcases := @allocate_install m Json native hid fun id => do
    modifyHost fun host => { host with breakpoints := OrdMap.insert id breakpoint host.breakpoints }
    return .obj [("id", .nat id)]
  rw [addBreakpoint]
  rcases hcases with hrun | ⟨e, hrun⟩ | hrun
  · rw [hrun]
    exact settled_error h (.still ⟨rfl, rfl, rfl⟩)
  · rw [hrun]
    exact settled_error h.refused (.still ⟨rfl, rfl, rfl⟩)
  · rw [hrun]
    exact settled_ok (h.added (hid _) hfit) (.still ⟨rfl, rfl, rfl⟩) (by simp [Json.get, OrdMap.find?_cons])
      (by simp [Json.get, OrdMap.find?_cons])

theorem breakpointRequest_ok {native : ℕ → NativeBreakpoint} {breakpoint : DebugBreakpoint}
    (h : breakpointRequest params = .ok (native, breakpoint)) :
    (∀ id, (native id).id = id) ∧ ∀ spec ∈ breakpoint.snapshots, spec.Fits := by
  obtain ⟨kind, -, h⟩ := bind_eq_ok.mp h
  obtain ⟨region, -, h⟩ := bind_eq_ok.mp h
  obtain ⟨start, -, h⟩ := bind_eq_ok.mp h
  obtain ⟨stop, -, h⟩ := bind_eq_ok.mp h
  rw [require_bind_eq_ok] at h
  obtain ⟨snapshots, hsnapshots, h⟩ := bind_eq_ok.mp h.2
  rw [require_bind_eq_ok] at h
  obtain ⟨range, -, h⟩ := bind_eq_ok.mp h.2
  obtain ⟨value, -, h⟩ := bind_eq_ok.mp h
  cases h
  exact ⟨fun _ => rfl, parseSnapshots_fit hsnapshots⟩

theorem registerRequest_ok {native : ℕ → NativeBreakpoint} {breakpoint : DebugBreakpoint}
    (h : registerRequest params = .ok (native, breakpoint)) :
    (∀ id, (native id).id = id) ∧ ∀ spec ∈ breakpoint.snapshots, spec.Fits := by
  obtain ⟨register, -, h⟩ := bind_eq_ok.mp h
  obtain ⟨low, -, h⟩ := bind_eq_ok.mp h
  obtain ⟨high, -, h⟩ := bind_eq_ok.mp h
  rw [require_bind_eq_ok] at h
  cases h.2
  exact ⟨fun _ => rfl, fun _ hmem => absurd hmem List.not_mem_nil⟩

theorem Settled.of_started {outcome : Outcome} (h : Settled m.started outcome) : Settled m outcome := by
  cases outcome with
  | ok reply m' => exact ⟨h.sound, ⟨h.moves.hits⟩⟩
  | error e m' => exact ⟨h.sound, ⟨h.moves.hits⟩⟩

theorem request_settled (h : Sound m) {request : Np2kaiResult ((ℕ → NativeBreakpoint) × DebugBreakpoint)}
    (hrequest : ∀ native breakpoint, request = .ok (native, breakpoint) →
      (∀ id, (native id).id = id) ∧ ∀ spec ∈ breakpoint.snapshots, spec.Fits) :
    Settled m ((do
      ensureInitialized
      let (native, breakpoint) ← fromExcept request
      addBreakpoint native breakpoint : Np2kai Json) m) := by
  rcases ensureInitialized_cases m with ⟨e, hstart⟩ | hstart
  · rw [bind_run_error hstart]
    exact settled_error h (.still ⟨rfl, rfl, rfl⟩)
  · rw [bind_run_of_ok hstart]
    cases hparsed : request with
    | error e => exact settled_error h.started (.still ⟨rfl, rfl, rfl⟩)
    | ok parsed =>
      obtain ⟨native, breakpoint⟩ := parsed
      obtain ⟨hid, hfit⟩ := hrequest native breakpoint hparsed
      exact (addBreakpoint_settled h.started hid hfit).of_started

theorem setBreakpoint_settled (h : Sound m) (params : Json) : Settled m (setBreakpoint params m) :=
  request_settled h fun _ _ => breakpointRequest_ok

theorem watchRegister_settled (h : Sound m) (params : Json) : Settled m (watchRegister params m) :=
  request_settled h fun _ _ => registerRequest_ok

/-! ## Clears and polls -/

structure Spares (m : Machine) (more : ℕ) : Prop where
  readable : Readable m
  room : m.host.droppedPendingEvents + overflowing m + more < 2 ^ 64

theorem drain_sound (h : Sound m) {more : ℕ} (hspares : Spares m more) :
    ∃ m' events evicted, drainNativeEvents m = .ok () m' ∧ Drained m m' (takenHits m) events evicted ∧ Sound m' := by
  have hroom := hspares.room
  obtain ⟨m', events, evicted, hrun, hdrained⟩ :=
    drainNativeEvents_ok h.fit h.bounded hspares.readable (by omega)
  exact ⟨m', events, evicted, hrun, hdrained, h.of_same hdrained.sameBooks hdrained.queued.bounded⟩

theorem debugClearBreakpoint_true {id : ℕ} (hclears : m.answers.clears = true)
    (hid : id ∈ m.core.installed.map NativeBreakpoint.id) :
    debugClearBreakpoint id m =
      .ok true (m.withCore { m.core with installed := m.core.installed.filter fun b => b.id ≠ id }) := by
  obtain ⟨b, hb, heq⟩ := List.mem_map.mp hid
  rw [debugClearBreakpoint, bind_run_of_ok get_run]
  rw [if_pos ⟨hclears, b, hb, heq⟩]
  rfl

theorem debugClearBreakpoint_false {id : ℕ} (hclears : m.answers.clears = false) :
    debugClearBreakpoint id m = .ok false m := by
  rw [debugClearBreakpoint, bind_run_of_ok get_run, if_neg]
  · rfl
  · rw [hclears]
    simp

theorem mem_installed_filter {installed : List NativeBreakpoint} {id other : ℕ} :
    other ∈ (installed.filter fun b => b.id ≠ id).map NativeBreakpoint.id ↔
      other ∈ installed.map NativeBreakpoint.id ∧ other ≠ id := by
  simp only [List.mem_map, List.mem_filter, decide_eq_true_eq]
  constructor
  · rintro ⟨b, ⟨hb, hne⟩, rfl⟩
    exact ⟨⟨b, hb, rfl⟩, hne⟩
  · rintro ⟨⟨b, hb, rfl⟩, hne⟩
    exact ⟨b, ⟨hb, hne⟩, rfl⟩

theorem mem_erase_keys {breakpoints : List (ℕ × DebugBreakpoint)} {id other : ℕ} :
    other ∈ (OrdMap.erase id breakpoints).map Prod.fst ↔ other ∈ breakpoints.map Prod.fst ∧ other ≠ id := by
  simp only [OrdMap.erase, List.mem_map, List.mem_filter, decide_eq_true_eq]
  constructor
  · rintro ⟨e, ⟨he, hne⟩, rfl⟩
    exact ⟨⟨e, he, rfl⟩, hne⟩
  · rintro ⟨⟨e, he, rfl⟩, hne⟩
    exact ⟨e, ⟨he, hne⟩, rfl⟩

def Machine.without (m : Machine) (id : ℕ) : Machine :=
  { m with
    host := { m.host with breakpoints := OrdMap.erase id m.host.breakpoints },
    core := { m.core with installed := m.core.installed.filter fun b => b.id ≠ id } }

theorem Sound.without (h : Sound m) {id : ℕ} (hid : id ∈ m.host.breakpoints.map Prod.fst) : Sound (m.without id) := by
  refine ⟨fun other => ?_, fun other hreset hmem => ?_, fun other hmem => ?_, h.asked, h.below, ?_, h.bounded⟩
  · show other ∈ (m.core.installed.filter fun b => b.id ≠ id).map NativeBreakpoint.id ↔
      other ∈ (OrdMap.erase id m.host.breakpoints).map Prod.fst ∨ m.host.breakOnResetId = some other
    rw [mem_installed_filter, mem_erase_keys, h.installed other]
    constructor
    · rintro ⟨hmem | hreset, hne⟩
      · exact .inl ⟨hmem, hne⟩
      · exact .inr hreset
    · rintro (⟨hmem, hne⟩ | hreset)
      · exact ⟨.inl hmem, hne⟩
      · refine ⟨.inr hreset, fun heq => ?_⟩
        rw [heq] at hreset
        exact h.apart id hreset hid
  · exact h.apart other hreset ((mem_erase_keys).mp hmem).1
  · exact h.numbered other ((mem_installed_filter).mp hmem).1
  · intro e he
    have hsub : e ∈ m.host.breakpoints := List.mem_of_mem_filter he
    exact h.fit e hsub

theorem clearBreakpoint_settled (h : Sound m) (params : Json)
    (hspares : ∀ id, requiredNum params "id" = .ok id → (OrdMap.find? id m.host.breakpoints).isSome → Spares m 0) :
    Settled m (clearBreakpoint params m) := by
  rw [clearBreakpoint]
  cases hid : requiredNum params "id" with
  | error e => exact settled_error h (.still ⟨rfl, rfl, rfl⟩)
  | ok id =>
    rw [bind_run_of_ok (show (fromExcept (.ok id) : Np2kai _) m = .ok id m from rfl), bind_run_of_ok get_run]
    by_cases hknown : (OrdMap.find? id m.host.breakpoints).isSome = true
    · rw [demand_bind_run_of hknown]
      obtain ⟨m', events, evicted, hdrain, hdrained, hsound⟩ := drain_sound h (hspares id hid hknown)
      rw [bind_run_of_ok hdrain]
      have hkey : id ∈ m'.host.breakpoints.map Prod.fst := by
        obtain ⟨breakpoint, hfind⟩ := Option.isSome_iff_exists.mp hknown
        rw [hdrained.sameBooks.breakpoints]
        exact List.mem_map.mpr ⟨(id, breakpoint), OrdMap.mem_of_find? hfind, rfl⟩
      cases hclears : m'.answers.clears with
      | false =>
        rw [bind_run_of_ok (debugClearBreakpoint_false hclears), demand_bind_run_error Bool.false_ne_true]
        exact settled_error hsound hdrained.moves
      | true =>
        rw [bind_run_of_ok (debugClearBreakpoint_true hclears ((hsound.installed id).mpr (.inl hkey))),
          demand_bind_run_of rfl]
        exact settled_ok (hsound.without hkey) (hdrained.moves.then_still ⟨rfl, rfl, rfl⟩)
          (by simp [Json.get, OrdMap.find?_cons]) (by simp [Json.get, OrdMap.find?_cons])
    · rw [demand_bind_run_error hknown]
      exact settled_error h (.still ⟨rfl, rfl, rfl⟩)

def Machine.emptied (m : Machine) : Machine :=
  { m with
    host := { m.host with breakpoints := [], breakOnResetId := none },
    core := { m.core with installed := [] } }

theorem Sound.emptied (h : Sound m) : Sound m.emptied where
  installed id := by simp [Machine.emptied]
  apart id hreset := by simp [Machine.emptied] at hreset
  numbered id hid := by simp [Machine.emptied] at hid
  asked := h.asked
  below := h.below
  fit := fun _ hmem => absurd hmem List.not_mem_nil
  bounded := h.bounded

theorem clearAllBreakpoints_settled (h : Sound m) (hspares : Spares m 0) : Settled m (clearAllBreakpoints m) := by
  obtain ⟨m', events, evicted, hdrain, hdrained, hsound⟩ := drain_sound h hspares
  have hrun : clearAllBreakpoints m =
      .ok (.obj [("cleared", .arr ((m'.host.breakpoints.map Prod.fst).map .nat))]) m'.emptied := by
    rw [clearAllBreakpoints, bind_run_of_ok hdrain]
    rfl
  rw [hrun]
  exact settled_ok hsound.emptied (hdrained.moves.then_still ⟨rfl, rfl, rfl⟩) (by simp [Json.get, OrdMap.find?_cons])
    (by simp [Json.get, OrdMap.find?_cons])

/-- The machine after the pending events that pass a filter were handed out, and the count of the dropped ones. -/
def Machine.handedOut (m : Machine) (filter : Option ℕ) : Machine :=
  m.withHost { m.host with
    pendingEvents := m.host.pendingEvents.filter fun event => !passes filter event,
    droppedPendingEvents := 0 }

theorem pollEvents_run {filter : Option ℕ} (hfilter : optionalNum params "breakpoint_id" = .ok filter)
    (hdrain : drainNativeEvents m = .ok () m') :
    pollEvents params m = .ok (.obj [
        ("dropped", .nat (saturatingAdd m'.host.droppedPendingEvents m'.answers.dropped)),
        ("events", .arr (m'.host.pendingEvents.filter (passes filter))),
        ("pending", .nat (m'.handedOut filter).host.pendingEvents.length)]) (m'.handedOut filter) := by
  rw [pollEvents, hfilter, bind_run_of_ok (show (fromExcept (.ok filter) : Np2kai _) m = .ok filter m from rfl),
    bind_run_of_ok hdrain]
  rfl

theorem pollEvents_settled (h : Sound m) (params : Json)
    (hspares : ∀ filter, optionalNum params "breakpoint_id" = .ok filter → Spares m m.answers.dropped) :
    Settled m (pollEvents params m) := by
  cases hfilter : optionalNum params "breakpoint_id" with
  | error e =>
    rw [pollEvents, hfilter]
    exact settled_error h (.still ⟨rfl, rfl, rfl⟩)
  | ok filter =>
    have hspare := hspares filter hfilter
    obtain ⟨m', events, evicted, hdrain, hdrained, hsound⟩ := drain_sound h hspare
    rw [pollEvents_run hfilter hdrain]
    have hsame : SameBooks m' (m'.handedOut filter) := ⟨rfl, rfl, rfl, rfl, rfl⟩
    have hfewer : (m'.handedOut filter).host.pendingEvents.length ≤ maxPendingEvents :=
      Nat.le_trans (List.length_filter_le _ _) hsound.bounded
    refine ⟨hsound.of_same hsame hfewer, takenHits m, events, evicted, hdrained.hits, hdrained.rendered, ?_, ?_⟩
    · have hreturned : (m'.host.pendingEvents.filter (passes filter) ++
          m'.host.pendingEvents.filter fun event => !passes filter event).Perm m'.host.pendingEvents :=
        List.filter_append_perm _ _
      show (m.host.pendingEvents ++ events).Perm (m'.host.pendingEvents.filter (passes filter) ++
        (m'.host.pendingEvents.filter fun event => !passes filter event) ++ evicted)
      rw [hdrained.queued.queue]
      exact List.perm_append_comm.trans (hreturned.symm.append_right evicted)
    · have hroom := hspare.room
      have hcount := hdrained.queued.count
      have hdropped := hdrained.queued.dropped
      have hlength := hdrained.rendered.length_eq
      have hexact : saturatingAdd m'.host.droppedPendingEvents m'.answers.dropped =
          m'.host.droppedPendingEvents + m.answers.dropped := by
        rw [saturatingAdd, hdrained.answers.2.2]
        unfold overflowing at hroom
        omega
      have hsmall : m'.host.droppedPendingEvents + m.answers.dropped < 2 ^ 64 := by
        unfold overflowing at hroom
        omega
      rw [hexact]
      simp only [Outcome.reported, Outcome.coreDropped, Outcome.machine, Json.get, OrdMap.find?_cons, if_true,
        Option.bind_some, Json.asU64, if_pos hsmall, Option.getD_some, Option.isSome_some, Machine.handedOut,
        Machine.withHost]
      omega

/-! ## The breakpoint on resets -/

def Machine.withoutReset (m : Machine) (id : ℕ) : Machine :=
  { m with
    host := { m.host with breakOnResetId := none },
    core := { m.core with installed := m.core.installed.filter fun b => b.id ≠ id } }

theorem Sound.withoutReset (h : Sound m) {id : ℕ} (hid : m.host.breakOnResetId = some id) :
    Sound (m.withoutReset id) := by
  refine ⟨fun other => ?_, fun other hreset => (by cases hreset), fun other hmem => ?_, h.asked, h.below, h.fit,
    h.bounded⟩
  · show other ∈ (m.core.installed.filter fun b => b.id ≠ id).map NativeBreakpoint.id ↔
      other ∈ m.host.breakpoints.map Prod.fst ∨ none = some other
    rw [mem_installed_filter, h.installed other, hid]
    constructor
    · rintro ⟨hmem | hreset, hne⟩
      · exact .inl hmem
      · exact absurd (Option.some.inj hreset).symm hne
    · rintro (hmem | hreset)
      · refine ⟨.inl hmem, fun heq => ?_⟩
        rw [heq] at hmem
        exact h.apart id hid hmem
      · cases hreset
  · exact h.numbered other ((mem_installed_filter).mp hmem).1

theorem clearResetBreakpoint_ok (h : Sound m) (hclears : m.host.breakOnResetId.isSome → m.answers.clears = true) :
    ∃ m', clearResetBreakpoint m = .ok () m' ∧ Sound m' ∧ m'.host.breakOnResetId = none ∧ Moves m m' [] 0 0 := by
  cases hid : m.host.breakOnResetId with
  | none =>
    refine ⟨m, ?_, h, hid, .still ⟨rfl, rfl, rfl⟩⟩
    rw [clearResetBreakpoint, bind_run_of_ok get_run, hid]
    rfl
  | some id =>
    have hclear : debugClearBreakpoint id (m.withHost { m.host with breakOnResetId := none }) =
        .ok true (m.withoutReset id) :=
      debugClearBreakpoint_true (hclears (by rw [hid]; rfl)) ((h.installed id).mpr (.inr hid))
    refine ⟨m.withoutReset id, ?_, h.withoutReset hid, rfl, .still ⟨rfl, rfl, rfl⟩⟩
    rw [clearResetBreakpoint, bind_run_of_ok get_run, hid]
    dsimp only
    rw [bind_run_of_ok (modifyHost_run _), bind_run_of_ok hclear]
    rfl

def Machine.withReset (m : Machine) (native : NativeBreakpoint) : Machine :=
  (m.asking (m.core.installed ++ [native])).withHost { (m.asking (m.core.installed ++ [native])).host with
    breakOnResetId := some m.host.nextBreakpointId }

theorem Sound.withReset (h : Sound m) (hnone : m.host.breakOnResetId = none) {native : NativeBreakpoint}
    (hid : native.id = m.host.nextBreakpointId) : Sound (m.withReset native) := by
  refine ⟨fun id => ?_, fun id hreset hmem => ?_, numbered_next h hid, h.asked_next.1, h.asked_next.2, h.fit, h.bounded⟩
  · show id ∈ (m.core.installed ++ [native]).map NativeBreakpoint.id ↔
      id ∈ m.host.breakpoints.map Prod.fst ∨ some m.host.nextBreakpointId = some id
    rw [List.map_append, List.mem_append, List.map_singleton, List.mem_singleton, h.installed id, hnone, hid,
      Option.some.injEq]
    constructor
    · rintro ((hmem | hnever) | heq)
      · exact .inl hmem
      · cases hnever
      · exact .inr heq.symm
    · rintro (hmem | heq)
      · exact .inl (.inl hmem)
      · exact .inr heq.symm
  · have heq : m.host.nextBreakpointId = id := Option.some.inj hreset
    have hless := h.key_lt hmem
    omega

theorem installResetBreakpoint_cases (h : Sound m) (hnone : m.host.breakOnResetId = none) :
    (∃ e m', installResetBreakpoint m = .error e m' ∧ Sound m' ∧ SameQueues m m') ∨
      ∃ m', installResetBreakpoint m = .ok () m' ∧ Sound m' ∧ SameQueues m m' := by
  have hid : ∀ id, ({ id, kind := bpReset, pauseOnHit := true } : NativeBreakpoint).id = id := fun _ => rfl
  have hcases := @allocate_install m Unit _ hid fun id => modifyHost fun host => { host with breakOnResetId := some id }
  rw [installResetBreakpoint]
  rcases hcases with hrun | ⟨e, hrun⟩ | hrun
  · exact .inl ⟨_, m, hrun, h, rfl, rfl, rfl⟩
  · exact .inl ⟨e, _, hrun, h.refused, rfl, rfl, rfl⟩
  · exact .inr ⟨_, hrun, h.withReset hnone rfl, rfl, rfl, rfl⟩

theorem breakOnReset_settled (h : Sound m) (params : Json)
    (hclears : ensureInitialized m = .ok () m.started → m.host.breakOnResetId.isSome → m.answers.clears = true) :
    Settled m (breakOnReset params m) := by
  have hevents : ∀ enabled : Bool, (Json.obj [("enabled", .bool enabled), ("mode", .str "machine_reset_notifier"),
      ("system", .str "pc98")]).get "events" = none := fun enabled => by simp [Json.get, OrdMap.find?_cons]
  have hdropped : ∀ enabled : Bool, (Json.obj [("enabled", .bool enabled), ("mode", .str "machine_reset_notifier"),
      ("system", .str "pc98")]).get "dropped" = none := fun enabled => by simp [Json.get, OrdMap.find?_cons]
  rw [breakOnReset]
  rcases ensureInitialized_cases m with ⟨e, hstart⟩ | hstart
  · rw [bind_run_error hstart]
    exact settled_error h (.still ⟨rfl, rfl, rfl⟩)
  · obtain ⟨m', hclear, hsound, hnone, hmoves⟩ := clearResetBreakpoint_ok h.started (hclears hstart)
    refine Settled.of_started ?_
    rw [bind_run_of_ok hstart]
    dsimp only
    rw [bind_run_of_ok hclear]
    cases boolOr params "enabled" false with
    | false => exact settled_ok hsound hmoves (hevents false) (hdropped false)
    | true =>
      rw [if_pos rfl]
      rcases installResetBreakpoint_cases hsound hnone with ⟨e, m'', hrun, hsound', hsame⟩ | ⟨m'', hrun, hsound', hsame⟩
      · rw [bind_run_error hrun]
        exact settled_error hsound' (hmoves.then_still hsame)
      · rw [bind_run_of_ok hrun]
        exact settled_ok hsound' (hmoves.then_still hsame) (hevents true) (hdropped true)

end Emucap.Np2kaiAdapter
