import Emucap.Np2kaiAdapter.HitLedger

/-!
# Runs of the NP2kai adapter

Hits come in between the requests. In every run in which no hit is lost to a snapshot that cannot be read, no count of
dropped events overflows, and the core refuses no clear of the breakpoint on resets, the core has installed what the
host knows, and every hit that was taken is returned once, pending, or counted as dropped.
-/

namespace Emucap.Np2kaiAdapter

open Emucap.Lib

inductive Request where
  | setBreakpoint (params : Json)
  | watchRegister (params : Json)
  | clearBreakpoint (params : Json)
  | clearAllBreakpoints
  | breakOnReset (params : Json)
  | pollEvents (params : Json)

def Request.perform : Request → Np2kai Json
  | setBreakpoint params => Np2kaiAdapter.setBreakpoint params
  | watchRegister params => Np2kaiAdapter.watchRegister params
  | clearBreakpoint params => Np2kaiAdapter.clearBreakpoint params
  | clearAllBreakpoints => Np2kaiAdapter.clearAllBreakpoints
  | breakOnReset params => Np2kaiAdapter.breakOnReset params
  | pollEvents params => Np2kaiAdapter.pollEvents params

def Request.Spared (m : Machine) : Request → Prop
  | .clearBreakpoint params =>
    ∀ id, requiredNum params "id" = .ok id → (OrdMap.find? id m.host.breakpoints).isSome → Spares m 0
  | .clearAllBreakpoints => Spares m 0
  | .pollEvents params =>
    ∀ filter, optionalNum params "breakpoint_id" = .ok filter → Spares m m.answers.dropped
  | .breakOnReset _ =>
    ensureInitialized m = .ok () m.started → m.host.breakOnResetId.isSome → m.answers.clears = true
  | _ => True

theorem request_spared {m : Machine} {request : Request} (h : Sound m) (hspared : request.Spared m) :
    Settled m (request.perform m) := by
  cases request with
  | setBreakpoint params => exact setBreakpoint_settled h params
  | watchRegister params => exact watchRegister_settled h params
  | clearBreakpoint params => exact clearBreakpoint_settled h params hspared
  | clearAllBreakpoints => exact clearAllBreakpoints_settled h hspared
  | breakOnReset params => exact breakOnReset_settled h params hspared
  | pollEvents params => exact pollEvents_settled h params hspared

/-! ## Runs -/

/-- A hit of the core, or a request with the answers of the core to it. -/
inductive Step where
  | hit (native : NativeEvent)
  | request (request : Request) (answers : Answers)

/-- The machine, the hits that have come, the events that were returned, the counts of dropped events that were
reported, and the hits that the core has dropped itself by what it said for these counts. -/
structure Run where
  machine : Machine
  arrived : List NativeEvent
  returned : List Json
  reported : ℕ
  coreDropped : ℕ

def Machine.answering (m : Machine) (answers : Answers) : Machine := { m with answers := answers }

def Machine.hitBy (m : Machine) (native : NativeEvent) : Machine :=
  m.withCore { m.core with hits := m.core.hits ++ [native] }

def Run.step (r : Run) : Step → Run
  | .hit native => { r with machine := r.machine.hitBy native, arrived := r.arrived ++ [native] }
  | .request request answers =>
    let outcome : Outcome := request.perform (r.machine.answering answers)
    { r with
      machine := outcome.machine,
      returned := r.returned ++ outcome.returned,
      reported := r.reported + outcome.reported,
      coreDropped := r.coreDropped + outcome.coreDropped (r.machine.answering answers) }

def Run.after (r : Run) : List Step → Run
  | [] => r
  | step :: steps => (r.step step).after steps

def Step.Spared (r : Run) : Step → Prop
  | .hit _ => True
  | .request asked answers => asked.Spared (r.machine.answering answers)

def Run.Spared (r : Run) : List Step → Prop
  | [] => True
  | step :: steps => step.Spared r ∧ (r.step step).Spared steps

def willing : Answers := ⟨(.ok 0, .ok 0), true, true, 2 ^ 64, fun _ => some [], 0⟩

def Run.initial : Run := ⟨⟨⟨false, [], [], 0, 1, none⟩, ⟨[], [], []⟩, willing⟩, [], [], 0, 0⟩

/-- The core has installed the breakpoints of the host, no id is used twice, and every hit that was taken is returned
once, pending, or among the dropped ones, which are all counted. -/
structure Run.InStep (r : Run) : Prop where
  installed : ∀ id, id ∈ r.machine.core.installed.map NativeBreakpoint.id ↔
    id ∈ r.machine.host.breakpoints.map Prod.fst ∨ r.machine.host.breakOnResetId = some id
  asked : r.machine.core.asked.Pairwise (· < ·)
  hits : ∃ taken events evicted, r.arrived = taken ++ r.machine.core.hits ∧ List.Forall₂ Renders taken events ∧
    events.Perm (r.returned ++ r.machine.host.pendingEvents ++ evicted) ∧
    r.reported + r.machine.host.droppedPendingEvents = evicted.length + r.coreDropped

/-- What holds in every state of a run. -/
structure Run.Accounted (r : Run) : Prop extends r.InStep where
  sound : Sound r.machine

theorem accounted_initial : Run.initial.Accounted where
  installed id := by simp [Run.initial]
  asked := .nil
  hits := ⟨[], [], [], rfl, .nil, .nil, rfl⟩
  sound :=
    { installed := fun id => by simp [Run.initial]
      apart := fun id h => by cases h
      numbered := fun id h => absurd h List.not_mem_nil
      asked := .nil
      below := fun id h => absurd h List.not_mem_nil
      fit := fun e h => absurd h List.not_mem_nil
      bounded := Nat.zero_le _ }

theorem Run.Accounted.moved {r : Run} (h : r.Accounted) {m : Machine} {returned : List Json}
    {reported coreDropped : ℕ} (hmoves : Moves r.machine m returned reported coreDropped) :
    ∃ taken events evicted, r.arrived = taken ++ m.core.hits ∧ List.Forall₂ Renders taken events ∧
      events.Perm (r.returned ++ returned ++ m.host.pendingEvents ++ evicted) ∧
      r.reported + reported + m.host.droppedPendingEvents = evicted.length + (r.coreDropped + coreDropped) := by
  obtain ⟨taken, events, evicted, htaken, hrendered, hperm, hcount⟩ := h.hits
  obtain ⟨taken', events', evicted', htaken', hrendered', hperm', hcount'⟩ := hmoves.hits
  refine ⟨taken ++ taken', events ++ events', evicted ++ evicted', ?_, List.rel_append hrendered hrendered', ?_, ?_⟩
  · rw [htaken, htaken', List.append_assoc]
  · refine List.perm_iff_count.mpr fun event => ?_
    have hbefore := hperm.count_eq event
    have hnow := hperm'.count_eq event
    simp only [List.count_append] at hbefore hnow ⊢
    omega
  · rw [List.length_append]
    omega

theorem step_accounted {r : Run} {step : Step} (h : r.Accounted) (hspared : step.Spared r) :
    (r.step step).Accounted := by
  cases step with
  | hit native =>
    obtain ⟨taken, events, evicted, htaken, hrest⟩ := h.hits
    refine ⟨⟨h.installed, h.asked, taken, events, evicted, ?_, hrest⟩, ?_⟩
    · show r.arrived ++ [native] = taken ++ (r.machine.core.hits ++ [native])
      rw [htaken, List.append_assoc]
    · exact h.sound.of_same ⟨rfl, rfl, rfl, rfl, rfl⟩ h.sound.bounded
  | request request answers =>
    have hsound : Sound (r.machine.answering answers) := h.sound.of_same ⟨rfl, rfl, rfl, rfl, rfl⟩ h.sound.bounded
    have hsettled := request_spared hsound hspared
    exact ⟨⟨hsettled.sound.installed, hsettled.sound.asked, h.moved ⟨hsettled.moves.hits⟩⟩, hsettled.sound⟩

theorem after_accounted {r : Run} {steps : List Step} (h : r.Accounted) (hspared : r.Spared steps) :
    (r.after steps).Accounted := by
  induction steps generalizing r with
  | nil => exact h
  | cons step steps ih => exact ih (step_accounted h hspared.1) hspared.2

/-- In every run all of whose requests are spared, the adapter and the core stay in step. -/
theorem breakpoints_in_step {steps : List Step} (hspared : Run.initial.Spared steps) :
    (Run.initial.after steps).InStep := (after_accounted accounted_initial hspared).toInStep

/-! ## Requests that are not spared -/

def noRegisters : NativeRegisters := ⟨0, 0, 0, 0, 0, 0, 0, 0, 0, 0, 0, 0, 0, 0, 0, 0, 0, 0⟩

def watched : Json := .obj [("kind", .str "write"), ("snapshot", .arr [.str "ram:0:4"]), ("start", .nat 16)]

def hitPolled (answers : Answers) : List Step :=
  [.request (.setBreakpoint watched) willing, .hit ⟨1, 1, bpWrite, 16, 1, 0, 1, noRegisters⟩,
    .request (.pollEvents (.obj [])) answers]

theorem hitPolled_spared : Run.initial.Spared (hitPolled willing) := by
  refine ⟨trivial, trivial, fun filter hfilter => ⟨fun i hi => rfl, ?_⟩, trivial⟩
  decide +kernel

theorem breakpoints_in_step_hit :
    (Run.initial.after (hitPolled willing)).returned.length = 1 ∧ (Run.initial.after (hitPolled willing)).InStep :=
  ⟨by decide +kernel, breakpoints_in_step hitPolled_spared⟩

/-- A breakpoint on resets that the core does not clear. -/
def resetKept : List Step :=
  [.request (.breakOnReset (.obj [("enabled", .bool true)])) willing,
    .request (.breakOnReset (.obj [("enabled", .bool false)])) { willing with clears := false }]

def unreadable : Answers := { willing with reads := fun _ => none }

/-- A breakpoint on resets that the core does not clear is forgotten, and a hit whose snapshot cannot be read is
lost. -/
theorem failed_requests_fall_out_of_step :
    ¬ (Run.initial.after resetKept).InStep ∧
      ¬ (Run.initial.after (hitPolled unreadable)).InStep := by
  constructor
  · intro h
    have hforgotten : ¬ (1 ∈ (Run.initial.after resetKept).machine.host.breakpoints.map Prod.fst ∨
        (Run.initial.after resetKept).machine.host.breakOnResetId = some 1) := by decide +kernel
    have hinstalled : 1 ∈ (Run.initial.after resetKept).machine.core.installed.map NativeBreakpoint.id := by
      decide +kernel
    exact hforgotten ((h.installed 1).mp hinstalled)
  · intro h
    obtain ⟨taken, events, evicted, htaken, hrendered, hperm, hcount⟩ := h.hits
    have hlength := congrArg List.length htaken
    have hevents := hperm.length_eq
    have hsame := hrendered.length_eq
    have harrived : (Run.initial.after (hitPolled unreadable)).arrived.length = 1 := by
      decide +kernel
    have hhits : (Run.initial.after (hitPolled unreadable)).machine.core.hits.length = 0 := by
      decide +kernel
    have hreturned : (Run.initial.after (hitPolled unreadable)).returned.length = 0 := by
      decide +kernel
    have hpending : (Run.initial.after (hitPolled unreadable)).machine.host.pendingEvents.length = 0 := by
      decide +kernel
    have hreported : (Run.initial.after (hitPolled unreadable)).reported = 0 := by
      decide +kernel
    have hdropped : (Run.initial.after (hitPolled unreadable)).machine.host.droppedPendingEvents = 0 := by
      decide +kernel
    simp only [List.length_append] at hlength hevents
    omega

end Emucap.Np2kaiAdapter
