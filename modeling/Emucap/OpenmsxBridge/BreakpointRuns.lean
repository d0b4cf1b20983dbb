import Emucap.Lib.Transducer
import Emucap.OpenmsxBridge.Wire

/-!
# The public map and the native set

Over every sequence of methods and every pattern of refused commands, the public map and the native set stay the same,
or the debugger is given up. Each method is a transaction on the invariant `Synced`.
-/

namespace Emucap.OpenmsxBridge

open Emucap.Lib Emucap.OpenmsxBridge.Native

/-! ## The invariant -/

/-- What `set_breakpoint` checks of a breakpoint by itself. -/
structure Admissible (p : PublicBreakpoint) : Prop where
  nativeId : validNativeId p.kind p.nativeId = true
  ordered : p.start ≤ p.stop
  stop : p.stop ≤ 0xffff
  snapshots : p.snapshots.length ≤ maxSnapshots
  bytes : (p.snapshots.map SnapshotSpec.length).sum ≤ maxSnapshotBytes
  range : ∀ spec ∈ p.snapshots, spec.address + spec.length < 2 ^ 64

/-- The two points cannot both be meant by one access. -/
def Apart (p q : PublicBreakpoint) : Prop := p.kind = q.kind → p.stop < q.start ∨ q.stop < p.start

/-- The points and the specifications inside openMSX are those of the public map. -/
structure Synced (b : Bridge) (ps : List NativePoint) (ss : List (ℕ × List SpecValue)) : Prop where
  points : ps.Perm (b.breakpoints.map fun entry => nativePoint entry.1 entry.2)
  specs : ∀ id, OrdMap.find? id ss = (OrdMap.find? id b.breakpoints).map fun p => p.snapshots.map specValue
  names : (ps.map fun p => (p.kind.watch, p.nativeId)).Nodup
  ids : (b.breakpoints.map Prod.fst).Pairwise (· < ·)
  below : ∀ entry ∈ b.breakpoints, entry.1 < b.nextBreakpointId
  next : b.nextBreakpointId < 2 ^ 64
  admissible : ∀ entry ∈ b.breakpoints, Admissible entry.2
  apart : b.breakpoints.Pairwise fun e f => Apart e.2 f.2
  few : b.breakpoints.length ≤ maxBreakpoints

namespace Synced

variable {b : Bridge} {points : List NativePoint} {specs : List (ℕ × List SpecValue)}

theorem nodup (h : Synced b points specs) : points.Nodup := h.names.of_map _

theorem fine (h : Synced b points specs) : ∀ p ∈ points, Fine p := by
  intro p hp
  obtain ⟨entry, hentry, rfl⟩ := List.mem_map.mp (h.points.mem_iff.mp hp)
  have hadm := h.admissible entry hentry
  have hstart := hadm.ordered
  have hstop := hadm.stop
  have hid := h.below entry hentry
  have hnext := h.next
  exact ⟨hadm.nativeId, by show entry.2.start ≤ _; omega, hadm.stop, by show entry.1 < _; omega⟩

theorem expected (h : Synced b points specs) : points.toFinset = expectedPoints b none none := by
  rw [expectedPoints, List.toFinset_eq_of_perm _ _ h.points]
  simp

end Synced

/-- What openMSX promises of the names of its points: a new one is in no use. -/
def Fresh (choose : Chooser) : Prop := ∀ count watch used, choose count watch used ∉ used

section control
variable {choose : Chooser}

/-! ## Commands -/

structure At (b : Bridge) (ps : List NativePoint) (ss : List (ℕ × List SpecValue)) (w : World) : Prop where
  bridge : w.bridge = b
  points : w.native.points = ps
  specs : w.native.specs = ss

variable {b : Bridge} {points : List NativePoint} {specs : List (ℕ × List SpecValue)} {w : World}

theorem At.hit (h : At b points specs w) (p : NativePoint × Capture) : At b points specs (w.hit p) := by
  unfold World.hit
  split_ifs
  · exact ⟨h.bridge, h.points, h.specs⟩
  · exact h

theorem At.hits (h : At b points specs w) (ps : List (NativePoint × Capture)) : At b points specs (w.hits ps) := by
  unfold World.hits
  induction ps generalizing w with
  | nil => exact h
  | cons p ps ih => exact ih (h.hit p)

theorem wp_command {c : Command} {Q : List Char → World → Prop} {E : BridgeError → World → Prop}
    (h : At b points specs w)
    (hQ : ∀ w' count, At b points specs w' →
      Q (w'.native.exec choose count c).1 { w' with native := (w'.native.exec choose count c).2 })
    (hE : ∀ message w', At b points specs w' → E (.control message) w') : wp (command choose c) Q E w := by
  have hheld : At b points specs { w.hits (w.turns 0).hits with turns := fun i => w.turns (i + 1) } :=
    ⟨(h.hits _).bridge, (h.hits _).points, (h.hits _).specs⟩
  unfold wp command
  rcases hturn : (w.turns 0).outcome with message | count
  · simp only [hturn]
    exact hE message _ hheld
  · simp only [hturn]
    exact hQ _ count hheld

variable {Q : Unit → World → Prop} {E : BridgeError → World → Prop}

theorem wp_installSnapshotSpec {id : ℕ} {snapshots : List SnapshotSpec} (h : At b points specs w)
    (hQ : ∀ w', At b points (OrdMap.insert id (snapshots.map specValue) specs) w' → Q () w')
    (hE : ∀ e w', At b points specs w' → E e w') : wp (installSnapshotSpec choose id snapshots) Q E w := by
  unfold installSnapshotSpec
  rw [wp_bind]
  refine wp_command h (fun w' count hw' => ?_) fun message w' hw' => hE _ w' hw'
  exact hQ _ ⟨hw'.bridge, hw'.points, by rw [← hw'.specs]; rfl⟩

theorem wp_uninstallSnapshotSpec {id : ℕ} (h : At b points specs w)
    (hQ : ∀ w', At b points (OrdMap.erase id specs) w' → Q () w')
    (hE : ∀ e w', At b points specs w' → E e w') : wp (uninstallSnapshotSpec choose id) Q E w := by
  unfold uninstallSnapshotSpec
  rw [wp_bind]
  refine wp_command h (fun w' count hw' => ?_) fun message w' hw' => hE _ w' hw'
  exact hQ _ ⟨hw'.bridge, hw'.points, by rw [← hw'.specs]; rfl⟩

def without (kind : Kind) (nativeId : List Char) (points : List NativePoint) : List NativePoint :=
  points.filter fun p => ¬ (p.kind.watch = kind.watch ∧ p.nativeId = nativeId)

theorem wp_removeNativeBreakpoint {kind : Kind} {nativeId : List Char} (h : At b points specs w)
    (hQ : ∀ w', At b (without kind nativeId points) specs w' → Q () w')
    (hE : ∀ e w', At b points specs w' → E e w') : wp (removeNativeBreakpoint choose kind nativeId) Q E w := by
  unfold removeNativeBreakpoint
  rw [wp_bind]
  refine wp_command h (fun w' count hw' => ?_) fun message w' hw' => hE _ w' hw'
  exact hQ _ ⟨hw'.bridge, by rw [← hw'.points]; rfl, hw'.specs⟩

/-- The name of the new point is in no use in its list. -/
def Unused (ps : List NativePoint) (kind : Kind) (nativeId : List Char) : Prop :=
  ∀ p ∈ ps, p.kind.watch = kind.watch → p.nativeId ≠ nativeId

theorem wp_create (hfresh : Fresh choose) {kind : Kind} {start stop id : ℕ} {Q : List Char → World → Prop}
    (h : At b points specs w)
    (hQ : ∀ nativeId w', Unused points kind nativeId →
      At b (points ++ [⟨nativeId, kind, start, stop, id⟩]) specs w' → Q nativeId w')
    (hE : ∀ e w', At b points specs w' → E e w') : wp (command choose (.create kind start stop id)) Q E w := by
  refine wp_command h (fun w' count hw' => ?_) fun message w' hw' => hE _ w' hw'
  refine hQ _ _ ?_ ⟨hw'.bridge, by rw [← hw'.points]; rfl, hw'.specs⟩
  intro p hp hwatch hsame
  refine hfresh count kind.watch ((w'.native.collection kind.watch).map (·.nativeId)) ?_
  refine List.mem_map.mpr ⟨p, List.mem_filter.mpr ⟨?_, by simpa using hwatch⟩, hsame⟩
  rw [hw'.points]
  exact hp

theorem wp_verifyNativeBreakpointsWith {extra : Option NativePoint} {excluded : Option ℕ} (h : At b points specs w)
    (hfine : ∀ p ∈ points, Fine p) (hnodup : points.Nodup)
    (hexpected : points.toFinset = expectedPoints b extra excluded) (hQ : ∀ w', At b points specs w' → Q () w')
    (hE : ∀ e w', At b points specs w' → E e w') : wp (verifyNativeBreakpointsWith choose extra excluded) Q E w := by
  unfold verifyNativeBreakpointsWith
  rw [wp_bind]
  refine wp_command h (fun w' count hw' => ?_) fun message w' hw' => hE _ w' hw'
  have hparse : parseInventory (encodeHexText w'.native.inventoryText) = .ok w'.native.points.toFinset :=
    parseInventory_inventoryText (by rw [hw'.points]; exact hfine) (by rw [hw'.points]; exact hnodup)
  simp only [exec, hparse, ofExcept, wp_bind, wp_pure, wp_get, require']
  rw [hw'.points, hw'.bridge, if_pos hexpected]
  exact hQ _ ⟨rfl, hw'.points, hw'.specs⟩

theorem wp_failDebugger {α : Type} {reason : FatalReason} {Q : α → World → Prop}
    (hE : ∀ e w', w'.bridge.debuggerFatal ≠ none → E e w') : wp (failDebugger reason : Bridged α) Q E w := by
  unfold failDebugger
  rw [wp_bind, wp_modify, wp_throw]
  exact hE _ _ nofun

theorem wp_requireDebuggerHealthy (hhealthy : w.bridge.debuggerFatal = none) (hQ : Q () w) :
    wp requireDebuggerHealthy Q E w := by
  unfold requireDebuggerHealthy
  rw [wp_bind, wp_get, hhealthy]
  exact hQ

/-! ## Arming -/

theorem parseSnapshotSpec_eq_ok {total total' : ℕ} {entry : Json} {spec : SnapshotSpec}
    (h : parseSnapshotSpec b total entry = .ok (spec, total')) :
    total' = total + spec.length ∧ total' ≤ maxSnapshotBytes ∧ spec.address + spec.length < 2 ^ 64 := by
  unfold parseSnapshotSpec at h
  simp only [bind_eq_ok, orError_eq_ok] at h
  obtain ⟨raw, -, h⟩ := h
  split at h
  · simp only [bind_eq_ok, orError_eq_ok, validateRange, require_eq_ok, checkedAdd_eq_some] at h
    obtain ⟨memoryType, -, address, -, length, -, -, -, -, ⟨hrange, -⟩, sum, ⟨-, rfl⟩, -, hbytes, hspec⟩ := h
    cases hspec
    exact ⟨rfl, hbytes, hrange⟩
  · cases h

theorem parseSnapshotEntries_eq_ok {entries : List Json} :
    ∀ {total : ℕ} {specs : List SnapshotSpec}, total ≤ maxSnapshotBytes →
      parseSnapshotEntries b total entries = .ok specs →
      specs.length = entries.length ∧ total + (specs.map SnapshotSpec.length).sum ≤ maxSnapshotBytes ∧
        ∀ spec ∈ specs, spec.address + spec.length < 2 ^ 64 := by
  induction entries with
  | nil =>
    intro total specs htotal h
    cases h
    exact ⟨rfl, by simpa using htotal, nofun⟩
  | cons entry entries ih =>
    intro total specs htotal h
    simp only [parseSnapshotEntries, bind_eq_ok] at h
    obtain ⟨⟨spec, total'⟩, hspec, rest, hrest, h⟩ := h
    cases h
    obtain ⟨rfl, hle, hrange⟩ := parseSnapshotSpec_eq_ok hspec
    obtain ⟨hlength, hsum, hall⟩ := ih hle hrest
    refine ⟨by simp [hlength], ?_, ?_⟩
    · simp only [List.map_cons, List.sum_cons]
      omega
    · rw [List.forall_mem_cons]
      exact ⟨hrange, hall⟩

theorem parseSnapshotSpecs_eq_ok {value : Option Json} {specs : List SnapshotSpec}
    (h : parseSnapshotSpecs b value = .ok specs) :
    specs.length ≤ maxSnapshots ∧ (specs.map SnapshotSpec.length).sum ≤ maxSnapshotBytes ∧
      ∀ spec ∈ specs, spec.address + spec.length < 2 ^ 64 := by
  cases value with
  | none =>
    cases h
    exact ⟨Nat.zero_le _, Nat.zero_le _, nofun⟩
  | some value =>
    simp only [parseSnapshotSpecs, bind_eq_ok, orError_eq_ok, require_eq_ok] at h
    obtain ⟨entries, -, -, hcount, h⟩ := h
    obtain ⟨hlength, hsum, hall⟩ := parseSnapshotEntries_eq_ok (Nat.zero_le _) h
    exact ⟨by omega, by omega, hall⟩

structure ArmAllowed (b : Bridge) (r : ArmRequest) : Prop where
  few : b.breakpoints.length < maxBreakpoints
  ordered : r.start ≤ r.stop
  stop : r.stop ≤ 0xffff
  apart : ∀ entry ∈ b.breakpoints, ¬ (entry.2.kind = r.kind ∧ entry.2.start ≤ r.stop ∧ r.start ≤ entry.2.stop)
  snapshots : r.snapshots.length ≤ maxSnapshots
  bytes : (r.snapshots.map SnapshotSpec.length).sum ≤ maxSnapshotBytes
  range : ∀ spec ∈ r.snapshots, spec.address + spec.length < 2 ^ 64
  next : r.nextId = b.nextBreakpointId + 1 ∧ b.nextBreakpointId + 1 < 2 ^ 64

theorem readArmRequest_eq_ok {params : Json} {r : ArmRequest} (h : readArmRequest b params = .ok r) :
    ArmAllowed b r := by
  simp only [readArmRequest, bind_eq_ok, require_eq_ok, orError_eq_ok, checkedAdd_eq_some] at h
  obtain ⟨-, hfew, -, -, -, -, start, -, stop, -, -, hrange, kind, -, -, hapart, snapshots, hsnapshots, next,
    ⟨hnext, rfl⟩, h⟩ := h
  cases h
  obtain ⟨hcount, hbytes, hall⟩ := parseSnapshotSpecs_eq_ok hsnapshots
  have hordered : start ≤ stop.getD start := by omega
  have hstop : stop.getD start ≤ 0xffff := by omega
  exact ⟨hfew, hordered, hstop, hapart, hcount, hbytes, hall, rfl, hnext⟩

def armed (b : Bridge) (r : ArmRequest) (nativeId : List Char) : Bridge :=
  { b with
    breakpoints := OrdMap.insert b.nextBreakpointId ⟨r.kind, r.start, r.stop, nativeId, r.snapshots⟩ b.breakpoints
    nextBreakpointId := r.nextId }

def armedPoint (b : Bridge) (r : ArmRequest) (nativeId : List Char) : NativePoint :=
  ⟨nativeId, r.kind, r.start, r.stop, b.nextBreakpointId⟩

section arm
variable {r : ArmRequest} {nativeId : List Char}

theorem without_unused (h : Unused points r.kind nativeId) :
    without r.kind nativeId (points ++ [armedPoint b r nativeId]) = points := by
  have hold : without r.kind nativeId points = points := by
    refine List.filter_eq_self.mpr fun p hp => ?_
    rw [decide_eq_true_eq]
    exact fun hname => h p hp hname.1 hname.2
  have hnew : without r.kind nativeId [armedPoint b r nativeId] = [] := by
    simp [without, armedPoint]
  rw [without, List.filter_append]
  exact (congrArg₂ (· ++ ·) hold hnew).trans (List.append_nil _)

theorem Synced.fine_arm (h : Synced b points specs) (hr : ArmAllowed b r)
    (hvalid : validNativeId r.kind nativeId = true) : ∀ p ∈ points ++ [armedPoint b r nativeId], Fine p := by
  intro p hp
  rcases List.mem_append.mp hp with hold | hnew
  · exact h.fine p hold
  · rw [List.mem_singleton.mp hnew]
    exact ⟨hvalid, hr.ordered.trans hr.stop, hr.stop, h.next⟩

theorem Synced.names_arm (h : Synced b points specs) (hunused : Unused points r.kind nativeId) :
    ((points ++ [armedPoint b r nativeId]).map fun p => (p.kind.watch, p.nativeId)).Nodup := by
  rw [List.map_append, List.nodup_append]
  refine ⟨h.names, by simp, ?_⟩
  intro name hname name' hname' heq
  obtain ⟨p, hp, rfl⟩ := List.mem_map.mp hname
  rw [List.map_singleton, List.mem_singleton] at hname'
  rw [hname', Prod.mk.injEq] at heq
  exact hunused p hp heq.1 heq.2

theorem Synced.expected_arm (h : Synced b points specs) :
    (points ++ [armedPoint b r nativeId]).toFinset =
      expectedPoints b (some (armedPoint b r nativeId)) none := by
  rw [expectedPoints, List.toFinset_append, List.toFinset_append, List.toFinset_eq_of_perm _ _ h.points]
  simp

theorem Synced.arm (h : Synced b points specs) (hr : ArmAllowed b r) (hunused : Unused points r.kind nativeId)
    (hvalid : validNativeId r.kind nativeId = true) :
    Synced (armed b r nativeId) (points ++ [armedPoint b r nativeId])
      (OrdMap.insert b.nextBreakpointId (r.snapshots.map specValue) specs) := by
  have hinsert : (armed b r nativeId).breakpoints =
      b.breakpoints ++ [(b.nextBreakpointId, ⟨r.kind, r.start, r.stop, nativeId, r.snapshots⟩)] :=
    OrdMap.insert_of_forall_lt _ h.below
  have hmem : ∀ {P : ℕ × PublicBreakpoint → Prop}, (∀ entry ∈ b.breakpoints, P entry) →
      P (b.nextBreakpointId, ⟨r.kind, r.start, r.stop, nativeId, r.snapshots⟩) →
      ∀ entry ∈ (armed b r nativeId).breakpoints, P entry := by
    intro P hold hnew entry hentry
    rw [hinsert, List.mem_append, List.mem_singleton] at hentry
    rcases hentry with hentry | rfl
    · exact hold entry hentry
    · exact hnew
  refine ⟨?_, ?_, h.names_arm hunused, ?_, ?_, ?_, ?_, ?_, ?_⟩
  · rw [hinsert, List.map_append]
    exact h.points.append (List.Perm.refl _)
  · intro id
    rw [armed, OrdMap.find?_insert, OrdMap.find?_insert, h.specs id]
    split_ifs <;> rfl
  · rw [hinsert, List.map_append, List.pairwise_append]
    refine ⟨h.ids, List.pairwise_singleton _ _, ?_⟩
    intro id hid id' hid'
    obtain ⟨entry, hentry, rfl⟩ := List.mem_map.mp hid
    rw [List.map_singleton, List.mem_singleton] at hid'
    rw [hid']
    exact h.below entry hentry
  · refine hmem (fun entry hentry => ?_) ?_
    · have hbelow := h.below entry hentry
      show entry.1 < r.nextId
      rw [hr.next.1]
      omega
    · show b.nextBreakpointId < r.nextId
      rw [hr.next.1]
      omega
  · show r.nextId < 2 ^ 64
    rw [hr.next.1]
    exact hr.next.2
  · exact hmem h.admissible ⟨hvalid, hr.ordered, hr.stop, hr.snapshots, hr.bytes, hr.range⟩
  · rw [hinsert, List.pairwise_append]
    refine ⟨h.apart, List.pairwise_singleton _ _, ?_⟩
    intro entry hentry new hnew hkind
    rw [List.mem_singleton] at hnew
    subst hnew
    have hno := hr.apart entry hentry
    by_contra hover
    exact hno ⟨hkind, by simp only at hover; omega, by simp only at hover; omega⟩
  · have hfew := hr.few
    rw [hinsert, List.length_append, List.length_singleton]
    omega

theorem Synced.unarm (h : Synced b points specs) {values : List SpecValue} :
    Synced b points (OrdMap.erase b.nextBreakpointId (OrdMap.insert b.nextBreakpointId values specs)) := by
  refine ⟨h.points, ?_, h.names, h.ids, h.below, h.next, h.admissible, h.apart, h.few⟩
  intro id
  by_cases hid : id = b.nextBreakpointId
  · have hnone : OrdMap.find? id b.breakpoints = none := by
      rw [← Option.not_isSome_iff_eq_none, OrdMap.find?_isSome_iff, List.mem_map]
      rintro ⟨entry, hentry, rfl⟩
      exact absurd (h.below entry hentry) (by omega)
    rw [hnone, hid, OrdMap.find?_erase_self]
    rfl
  · rw [OrdMap.find?_erase_ne hid, OrdMap.find?_insert_ne hid, h.specs]

def GivenUp (w : World) : Prop := w.bridge.debuggerFatal ≠ none

def Restored (b : Bridge) (ps : List NativePoint) (w : World) : Prop :=
  ∃ ss, At b ps ss w ∧ Synced b ps ss

def IsArmed (b : Bridge) (ps : List NativePoint) (reply : Reply) (w : World) : Prop :=
  ∃ r nativeId, reply = .armed b.nextBreakpointId nativeId ∧ ArmAllowed b r ∧
    Restored (armed b r nativeId) (ps ++ [armedPoint b r nativeId]) w

theorem wp_cleanupFailedArm {Q : Reply → World → Prop} {reason : BridgeError} (h : Synced b points specs)
    (hunused : Unused points r.kind nativeId) {values : List SpecValue}
    (hat : At b (points ++ [armedPoint b r nativeId]) (OrdMap.insert b.nextBreakpointId values specs) w) :
    wp (cleanupFailedArm choose b.nextBreakpointId r.kind nativeId reason) Q
      (fun _ w' => GivenUp w' ∨ Restored b points w') w := by
  have hgivenUp : ∀ {Q : Reply → World → Prop} {reason : FatalReason} {w : World},
      wp (failDebugger reason) Q (fun _ w' => GivenUp w' ∨ Restored b points w') w :=
    wp_failDebugger fun e w' h => .inl h
  unfold cleanupFailedArm
  rw [wp_bind, wp_attempt, wp_bind]
  refine wp_removeNativeBreakpoint hat (fun w₁ hw₁ => ?_) fun e w' _ => hgivenUp
  rw [without_unused hunused] at hw₁
  rw [wp_bind]
  refine wp_uninstallSnapshotSpec hw₁ (fun w₂ hw₂ => ?_) fun e w' _ => hgivenUp
  refine wp_verifyNativeBreakpointsWith hw₂ h.fine h.nodup h.expected (fun w₃ hw₃ => ?_) fun e w' _ => hgivenUp
  exact .inr ⟨_, hw₃, h.unarm⟩

theorem wp_setBreakpoint (hfresh : Fresh choose) {params : Json} (h : Synced b points specs)
    (hat : At b points specs w) (hhealthy : b.debuggerFatal = none) :
    wp (setBreakpoint choose params) (IsArmed b points) (fun _ w' => GivenUp w' ∨ Restored b points w') w := by
  have hgivenUp : ∀ {α : Type} {Q : α → World → Prop} {reason : FatalReason} {w : World},
      wp (failDebugger reason) Q (fun _ w' => GivenUp w' ∨ Restored b points w') w :=
    wp_failDebugger fun e w' h => .inl h
  unfold setBreakpoint
  rw [wp_bind]
  refine wp_requireDebuggerHealthy (by rw [hat.bridge]; exact hhealthy) ?_
  rw [wp_bind, wp_get, wp_bind, hat.bridge]
  rcases hread : readArmRequest b params with e | r
  · exact .inr ⟨specs, hat, h⟩
  have hr := readArmRequest_eq_ok hread
  rw [ofExcept, wp_pure, wp_bind, wp_get, wp_bind, hat.bridge]
  refine wp_installSnapshotSpec hat (fun w₁ hw₁ => ?_) fun e w' hw' => .inr ⟨specs, hw', h⟩
  rw [wp_bind, wp_attempt]
  refine wp_create hfresh hw₁ (fun nativeId w₃ hunused hw₃ => ?_) fun e w₂ hw₂ => ?_
  · simp only
    by_cases hvalid : validNativeId r.kind nativeId = true
    swap
    · rw [if_pos (by simpa using hvalid)]
      rw [wp_bind, wp_attempt]
      exact wp_uninstallSnapshotSpec hw₃ (fun _ _ => hgivenUp) fun _ _ _ => hgivenUp
    rw [if_neg (by simp [hvalid])]
    rw [wp_bind, wp_attempt]
    refine wp_verifyNativeBreakpointsWith hw₃ (h.fine_arm hr hvalid) ((h.names_arm hunused).of_map _)
      h.expected_arm (fun w₄ hw₄ => ?_) fun e w₄ hw₄ => wp_cleanupFailedArm h hunused hw₄
    rw [wp_bind, wp_modify, wp_pure]
    exact ⟨r, nativeId, rfl, hr, _, ⟨by rw [hw₄.bridge]; rfl, hw₄.points, hw₄.specs⟩, h.arm hr hunused hvalid⟩
  · rw [wp_bind, wp_attempt]
    refine wp_uninstallSnapshotSpec hw₂ (fun w₃ hw₃ => ?_) fun _ _ _ => hgivenUp
    exact .inr ⟨_, hw₃, h.unarm⟩

end arm

/-! ## Clearing -/

section clear
variable {id : ℕ} {p : PublicBreakpoint}

def cleared (b : Bridge) (id : ℕ) : Bridge := { b with breakpoints := OrdMap.erase id b.breakpoints }

theorem Synced.matches_iff (h : Synced b points specs) (hp : OrdMap.find? id b.breakpoints = some p) :
    ∀ entry ∈ b.breakpoints,
      (entry.2.kind.watch = p.kind.watch ∧ entry.2.nativeId = p.nativeId) ↔ entry.1 = id := by
  intro entry hentry
  have hmem := OrdMap.mem_of_find? hp
  have hids : (b.breakpoints.map Prod.fst).Nodup := h.ids.imp fun hlt => Nat.ne_of_lt hlt
  have hnames : (b.breakpoints.map fun entry => (entry.2.kind.watch, entry.2.nativeId)).Nodup := by
    have hperm := h.points.map fun q : NativePoint => (q.kind.watch, q.nativeId)
    rw [List.map_map] at hperm
    exact hperm.nodup_iff.mp h.names
  constructor
  · rintro ⟨hwatch, hname⟩
    have hsame := List.inj_on_of_nodup_map hnames hentry hmem (Prod.ext hwatch hname)
    rw [hsame]
  · intro hid
    have hsame := List.inj_on_of_nodup_map hids hentry hmem hid
    rw [hsame]
    exact ⟨rfl, rfl⟩

theorem Synced.without_perm (h : Synced b points specs) (hp : OrdMap.find? id b.breakpoints = some p) :
    (without p.kind p.nativeId points).Perm
      ((OrdMap.erase id b.breakpoints).map fun entry => nativePoint entry.1 entry.2) := by
  refine (h.points.filter _).trans (List.Perm.of_eq ?_)
  rw [List.filter_map, OrdMap.erase]
  congr 1
  refine List.filter_congr fun entry hentry => ?_
  have hiff := not_congr (h.matches_iff hp entry hentry)
  rw [Function.comp_apply, decide_eq_decide]
  exact hiff

theorem Synced.clear (h : Synced b points specs) (hp : OrdMap.find? id b.breakpoints = some p) :
    Synced (cleared b id) (without p.kind p.nativeId points) (OrdMap.erase id specs) := by
  have hsub : (cleared b id).breakpoints.Sublist b.breakpoints := List.filter_sublist
  refine ⟨h.without_perm hp, ?_, ?_, ?_, ?_, h.next, ?_, h.apart.sublist hsub, ?_⟩
  · intro id'
    by_cases hid : id' = id
    · rw [hid, cleared, OrdMap.find?_erase_self, OrdMap.find?_erase_self]
      rfl
    · rw [cleared, OrdMap.find?_erase_ne hid, OrdMap.find?_erase_ne hid, h.specs]
  · exact h.names.sublist (List.filter_sublist.map _)
  · exact h.ids.sublist (hsub.map _)
  · exact fun entry hentry => h.below entry (hsub.subset hentry)
  · exact fun entry hentry => h.admissible entry (hsub.subset hentry)
  · exact hsub.length_le.trans h.few

theorem Synced.expected_clear (h : Synced b points specs) (hp : OrdMap.find? id b.breakpoints = some p) :
    (without p.kind p.nativeId points).toFinset = expectedPoints b none (some id) := by
  rw [expectedPoints, List.toFinset_eq_of_perm _ _ (h.without_perm hp), OrdMap.erase]
  simp [eq_comm]

def IsCleared (b : Bridge) (ps : List NativePoint) (id : ℕ) (w : World) : Prop :=
  ∃ p, OrdMap.find? id b.breakpoints = some p ∧ Restored (cleared b id) (without p.kind p.nativeId ps) w

theorem wp_clearId (h : Synced b points specs) (hat : At b points specs w) :
    wp (clearId choose id) (fun reply w' => reply = .cleared id ∧ IsCleared b points id w')
      (fun _ w' => GivenUp w' ∨ Restored b points w') w := by
  have hgivenUp : ∀ {Q : Reply → World → Prop} {reason : FatalReason} {w : World},
      wp (failDebugger reason) Q (fun _ w' => GivenUp w' ∨ Restored b points w') w :=
    wp_failDebugger fun e w' h => .inl h
  unfold clearId
  rw [wp_bind, wp_get, wp_bind, hat.bridge]
  rcases hp : OrdMap.find? id b.breakpoints with _ | p
  · exact .inr ⟨specs, hat, h⟩
  rw [orError, ofExcept, wp_pure, wp_bind]
  refine wp_removeNativeBreakpoint hat (fun w₁ hw₁ => ?_) fun e w' hw' => .inr ⟨specs, hw', h⟩
  rw [wp_bind, wp_attempt]
  refine wp_verifyNativeBreakpointsWith hw₁ (h.clear hp).fine (h.clear hp).nodup (h.expected_clear hp)
    (fun w₂ hw₂ => ?_) fun e w' _ => hgivenUp
  rw [wp_bind, wp_attempt]
  refine wp_uninstallSnapshotSpec hw₂ (fun w₃ hw₃ => ?_) fun e w' _ => hgivenUp
  rw [wp_bind, wp_modify, wp_pure]
  refine ⟨rfl, p, hp, _, ⟨?_, hw₃.points, hw₃.specs⟩, h.clear hp⟩
  rw [hw₃.bridge]
  rfl

theorem wp_clearBreakpoint {params : Json} (h : Synced b points specs) (hat : At b points specs w)
    (hhealthy : b.debuggerFatal = none) :
    wp (clearBreakpoint choose params)
      (fun reply w' => ∃ id, requiredNum params "id" = .ok id ∧ reply = .cleared id ∧ IsCleared b points id w')
      (fun _ w' => GivenUp w' ∨ Restored b points w') w := by
  unfold clearBreakpoint
  rw [wp_bind]
  refine wp_requireDebuggerHealthy (by rw [hat.bridge]; exact hhealthy) ?_
  rw [wp_bind]
  rcases hid : requiredNum params "id" with e | id
  · exact .inr ⟨specs, hat, h⟩
  rw [ofExcept, wp_pure]
  exact wp_mono (wp_clearId h hat) (fun _ _ hw' => ⟨id, rfl, hw'⟩) fun _ _ hw' => hw'

def afterFirst (b : Bridge) (k : ℕ) : Bridge := { b with breakpoints := b.breakpoints.drop k }

theorem cleared_first {entry : ℕ × PublicBreakpoint} {rest : List (ℕ × PublicBreakpoint)}
    (h : Synced b points specs) (hb : b.breakpoints = entry :: rest) :
    (cleared b entry.1).breakpoints = rest ∧ ∀ k, afterFirst (cleared b entry.1) k = afterFirst b (k + 1) := by
  have hids := h.ids
  rw [hb, List.map_cons, List.pairwise_cons] at hids
  have herase : OrdMap.erase entry.1 b.breakpoints = rest := by
    rw [hb, OrdMap.erase, List.filter_cons_of_neg (by simp), List.filter_eq_self]
    intro other hother
    have hlt := hids.1 other.1 (List.mem_map_of_mem hother)
    rw [decide_eq_true_eq]
    omega
  refine ⟨herase, fun k => ?_⟩
  unfold afterFirst cleared
  rw [herase, hb, List.drop_succ_cons]

/-- The loop over the breakpoints stops at the first failure, with the ones before it gone. -/
theorem wp_clearEach (entries : List (ℕ × PublicBreakpoint)) :
    ∀ {b : Bridge} {points : List NativePoint} {specs : List (ℕ × List SpecValue)} {w : World},
      Synced b points specs → At b points specs w → b.debuggerFatal = none → b.breakpoints = entries →
      wp (clearEach choose (entries.map Prod.fst))
        (fun _ w' => ∃ ps, Restored (afterFirst b entries.length) ps w')
        (fun _ w' => GivenUp w' ∨ ∃ k ps, Restored (afterFirst b k) ps w') w := by
  induction entries with
  | nil =>
    intro b points specs w h hat hhealthy hb
    refine ⟨points, specs, ?_, ?_⟩
    · exact hat
    · exact h
  | cons entry rest ih =>
    intro b points specs w h hat hhealthy hb
    obtain ⟨hrest, hafter⟩ := cleared_first h hb
    have hid : requiredNum (.obj [("id", .nat entry.1)]) "id" = .ok entry.1 := by
      have hlt : entry.1 < 2 ^ 64 := (h.below entry (by rw [hb]; exact List.mem_cons_self)).trans h.next
      simp only [requiredNum, optionalNum, Json.get_obj, OrdMap.find?, if_true, Json.asU64_nat hlt, orError]
      rfl
    rw [List.map_cons, clearEach, wp_bind]
    refine wp_mono (wp_clearBreakpoint h hat hhealthy) ?_ ?_
    · rintro reply w' ⟨id, hread, -, p, hp, ss, hat', hsynced⟩
      obtain rfl : entry.1 = id := Except.ok.inj (hid.symm.trans hread)
      refine wp_mono (ih hsynced hat' hhealthy hrest) ?_ ?_
      · rintro - w'' ⟨ps, hw''⟩
        rw [hafter] at hw''
        exact ⟨ps, hw''⟩
      · rintro - w'' (hgone | ⟨k, ps, hw''⟩)
        · exact .inl hgone
        · rw [hafter] at hw''
          exact .inr ⟨k + 1, ps, hw''⟩
    · rintro e w' (hgone | hsame)
      · exact .inl hgone
      · exact .inr ⟨0, points, hsame⟩

theorem wp_clearAllBreakpoints (h : Synced b points specs) (hat : At b points specs w)
    (hhealthy : b.debuggerFatal = none) :
    wp (clearAllBreakpoints choose)
      (fun reply w' => reply = .clearedAll (b.breakpoints.map Prod.fst) ∧ ∃ k ps, Restored (afterFirst b k) ps w')
      (fun _ w' => GivenUp w' ∨ ∃ k ps, Restored (afterFirst b k) ps w') w := by
  unfold clearAllBreakpoints
  rw [wp_bind]
  refine wp_requireDebuggerHealthy (by rw [hat.bridge]; exact hhealthy) ?_
  rw [wp_bind, wp_get, wp_bind, hat.bridge]
  exact wp_mono (wp_clearEach b.breakpoints h hat hhealthy rfl) (fun _ _ ⟨ps, hw'⟩ => ⟨rfl, _, ps, hw'⟩)
    fun _ _ hw' => hw'

theorem wp_reconcileBreakpoints {operation : String} (h : Synced b points specs) (hat : At b points specs w)
    (hhealthy : b.debuggerFatal = none) :
    wp (reconcileBreakpoints choose operation) (fun reply w' => reply = .done ∧ Restored b points w')
      (fun _ w' => GivenUp w' ∨ Restored b points w') w := by
  unfold reconcileBreakpoints
  rw [wp_bind]
  refine wp_requireDebuggerHealthy (by rw [hat.bridge]; exact hhealthy) ?_
  rw [wp_bind, wp_attempt]
  refine wp_verifyNativeBreakpointsWith hat h.fine h.nodup h.expected (fun w' hw' => ⟨rfl, specs, hw', h⟩)
    fun e w' _ => ?_
  exact wp_failDebugger fun e w' h => .inl h

end clear

/-! ## Runs -/

/-- A method that arms, clears or checks breakpoints. -/
inductive BreakpointOp where
  | set (params : Json)
  | clear (params : Json)
  | clearAll
  | reconcile (operation : String)

variable (choose) in
def BreakpointOp.perform : BreakpointOp → Bridged Reply
  | .set params => setBreakpoint choose params
  | .clear params => clearBreakpoint choose params
  | .clearAll => clearAllBreakpoints choose
  | .reconcile operation => reconcileBreakpoints choose operation

variable (choose) in
def BreakpointOp.step (w : World) (op : BreakpointOp) : Except BridgeError Reply × World :=
  match op.perform choose w with
  | .ok reply w' => (.ok reply, w')
  | .error e w' => (.error e, w')

variable (choose) in
def runBreakpoints (w : World) (ops : List BreakpointOp) : World :=
  ops.foldl (fun w op => (op.step choose w).2) w

def armedId : Except BridgeError Reply → Option ℕ
  | .ok (.armed id _) => some id
  | _ => none

/-- Whether a failed method left the map and the native set alone; `clear_all` may have removed the first ones. -/
def LeftAlone (op : BreakpointOp) (w w' : World) : Prop :=
  match op with
  | .clearAll => ∃ k, w'.bridge.breakpoints = w.bridge.breakpoints.drop k ∧
      w'.native.points.toFinset =
        ((w.bridge.breakpoints.drop k).map fun entry => nativePoint entry.1 entry.2).toFinset
  | _ => w'.bridge.breakpoints = w.bridge.breakpoints ∧ w'.native.points = w.native.points

theorem step_eq {op : BreakpointOp} {Q : Reply → World → Prop} {E : BridgeError → World → Prop}
    (h : wp (op.perform choose) Q E w) :
    (∃ reply, (op.step choose w).1 = .ok reply ∧ Q reply (op.step choose w).2) ∨
      ∃ e, (op.step choose w).1 = .error e ∧ E e (op.step choose w).2 := by
  unfold wp at h
  unfold BreakpointOp.step
  rcases hrun : op.perform choose w with ⟨reply, w'⟩ | ⟨e, w'⟩
  · rw [hrun] at h
    exact .inl ⟨reply, rfl, h⟩
  · rw [hrun] at h
    exact .inr ⟨e, rfl, h⟩

theorem step_givenUp (op : BreakpointOp) (h : GivenUp w) :
    armedId (op.step choose w).1 = none ∧ (op.step choose w).2 = w := by
  obtain ⟨reason, hreason⟩ := Option.ne_none_iff_exists'.mp h
  have hhealthy : requireDebuggerHealthy w = .error (.fatal reason) w := by
    rw [requireDebuggerHealthy, get_bind_run, hreason]
    rfl
  have hrun : op.perform choose w = .error (.fatal reason) w := by
    cases op with
    | set params => exact bind_run_error hhealthy
    | clear params => exact bind_run_error hhealthy
    | clearAll => exact bind_run_error hhealthy
    | reconcile operation => exact bind_run_error hhealthy
  rw [BreakpointOp.step, hrun]
  exact ⟨rfl, rfl⟩

/-- The map agrees with the native set, or nothing is promised any more. -/
def InSync (w : World) : Prop := GivenUp w ∨ Synced w.bridge w.native.points w.native.specs

theorem Restored.inSync {ps : List NativePoint} (h : Restored b ps w) : InSync w := by
  obtain ⟨ss, hat, hsynced⟩ := h
  refine .inr ?_
  rw [hat.bridge, hat.points, hat.specs]
  exact hsynced

/-- What one method does from a synced state. -/
structure StepKept (op : BreakpointOp) (w w' : World) (answer : Except BridgeError Reply) : Prop where
  inSync : InSync w'
  next : GivenUp w' ∨ w.bridge.nextBreakpointId ≤ w'.bridge.nextBreakpointId
  armed : ∀ id, armedId answer = some id → id = w.bridge.nextBreakpointId ∧ id < w'.bridge.nextBreakpointId
  failed : ∀ e, answer = .error e → GivenUp w' ∨ LeftAlone op w w'

theorem StepKept.of_givenUp {op : BreakpointOp} {w w' : World} {e : BridgeError} (h : GivenUp w') :
    StepKept op w w' (.error e) :=
  ⟨.inl h, .inl h, nofun, fun _ _ => .inl h⟩

theorem StepKept.of_restored {op : BreakpointOp} {w w' : World} {answer : Except BridgeError Reply} {b' : Bridge}
    {ps : List NativePoint} (h : Restored b' ps w') (hnext : b'.nextBreakpointId = w.bridge.nextBreakpointId)
    (harmed : armedId answer = none) (hfailed : ∀ e, answer = .error e → LeftAlone op w w') :
    StepKept op w w' answer := by
  refine ⟨h.inSync, .inr ?_, ?_, fun e he => .inr (hfailed e he)⟩
  · obtain ⟨ss, hat, -⟩ := h
    rw [hat.bridge, hnext]
  · intro id hid
    rw [harmed] at hid
    cases hid

theorem step_kept (hfresh : Fresh choose) (op : BreakpointOp)
    (h : Synced w.bridge w.native.points w.native.specs) (hhealthy : w.bridge.debuggerFatal = none) :
    StepKept op w (op.step choose w).2 (op.step choose w).1 := by
  have hat : At w.bridge w.native.points w.native.specs w := ⟨rfl, rfl, rfl⟩
  -- a method that fails with everything as it was
  have hleft : ∀ {op : BreakpointOp} {w' : World} {e : BridgeError}, op ≠ .clearAll →
      Restored w.bridge w.native.points w' → StepKept op w w' (.error e) := by
    rintro op w' e hop hw'
    refine .of_restored hw' rfl rfl fun _ _ => ?_
    obtain ⟨ss, hat', -⟩ := hw'
    cases op with
    | clearAll => exact absurd rfl hop
    | set params => exact ⟨by rw [hat'.bridge], hat'.points⟩
    | clear params => exact ⟨by rw [hat'.bridge], hat'.points⟩
    | reconcile operation => exact ⟨by rw [hat'.bridge], hat'.points⟩
  cases op with
  | set params =>
    have hwp : wp (BreakpointOp.perform choose (.set params)) _ _ w := wp_setBreakpoint hfresh h hat hhealthy
    rcases step_eq hwp with
      ⟨reply, hok, r, nativeId, rfl, hr, hw'⟩ | ⟨e, herror, hgone | hw'⟩
    · rw [hok]
      obtain ⟨ss, hat', hsynced⟩ := hw'
      have hnext : ((BreakpointOp.set params).step choose w).2.bridge.nextBreakpointId = r.nextId := by
        rw [hat'.bridge]
        rfl
      have hid := hr.next.1
      refine ⟨Restored.inSync ⟨ss, hat', hsynced⟩, .inr (by omega), ?_, nofun⟩
      intro id hid'
      cases hid'
      exact ⟨rfl, by omega⟩
    · rw [herror]
      exact .of_givenUp hgone
    · rw [herror]
      exact hleft nofun hw'
  | clear params =>
    have hwp : wp (BreakpointOp.perform choose (.clear params)) _ _ w := wp_clearBreakpoint h hat hhealthy
    rcases step_eq hwp with
      ⟨reply, hok, id, -, rfl, p, -, hw'⟩ | ⟨e, herror, hgone | hw'⟩
    · rw [hok]
      exact .of_restored hw' rfl rfl nofun
    · rw [herror]
      exact .of_givenUp hgone
    · rw [herror]
      exact hleft nofun hw'
  | clearAll =>
    have hwp : wp (BreakpointOp.perform choose (.clearAll)) _ _ w := wp_clearAllBreakpoints h hat hhealthy
    rcases step_eq hwp with
      ⟨reply, hok, rfl, k, ps, hw'⟩ | ⟨e, herror, hgone | ⟨k, ps, hw'⟩⟩
    · rw [hok]
      exact .of_restored hw' rfl rfl nofun
    · rw [herror]
      exact .of_givenUp hgone
    · rw [herror]
      refine .of_restored hw' rfl rfl fun _ _ => ?_
      obtain ⟨ss, hat', hsynced⟩ := hw'
      refine ⟨k, by rw [hat'.bridge]; rfl, ?_⟩
      rw [hat'.points, List.toFinset_eq_of_perm _ _ hsynced.points]
      rfl
  | reconcile operation =>
    have hwp : wp (BreakpointOp.perform choose (.reconcile operation)) _ _ w := wp_reconcileBreakpoints h hat hhealthy
    rcases step_eq hwp with
      ⟨reply, hok, rfl, hw'⟩ | ⟨e, herror, hgone | hw'⟩
    · rw [hok]
      exact .of_restored hw' rfl rfl nofun
    · rw [herror]
      exact .of_givenUp hgone
    · rw [herror]
      exact hleft nofun hw'

theorem run_inSync (hfresh : Fresh choose) (ops : List BreakpointOp) :
    ∀ {w : World}, InSync w → InSync (runBreakpoints choose w ops) := by
  induction ops with
  | nil =>
    intro w h
    exact h
  | cons op ops ih =>
    intro w h
    refine @ih (op.step choose w).2 ?_
    by_cases hgone : GivenUp w
    · rw [(step_givenUp op hgone).2]
      exact h
    · exact (step_kept hfresh op (h.resolve_left hgone) (not_not.mp hgone)).inSync

theorem issued_givenUp (ops : List BreakpointOp) (h : GivenUp w) :
    (outputs (fun w op => op.step choose w) w ops).filterMap armedId = [] := by
  induction ops with
  | nil => rfl
  | cons op ops ih =>
    obtain ⟨hnone, hsame⟩ : armedId (op.step choose w).1 = none ∧ (op.step choose w).2 = w := step_givenUp op h
    rw [outputs, List.filterMap_cons, hnone, hsame]
    exact ih

/-- The identifiers a run issues go up from the next free one. -/
theorem issued_increasing (hfresh : Fresh choose) (ops : List BreakpointOp) :
    ∀ {w : World}, InSync w →
      (∀ id ∈ (outputs (fun w op => op.step choose w) w ops).filterMap armedId, w.bridge.nextBreakpointId ≤ id) ∧
        ((outputs (fun w op => op.step choose w) w ops).filterMap armedId).Pairwise (· < ·) := by
  induction ops with
  | nil =>
    intro w _
    exact ⟨List.forall_mem_nil _, List.Pairwise.nil⟩
  | cons op ops ih =>
    intro w h
    by_cases hgone : GivenUp w
    · rw [issued_givenUp _ hgone]
      exact ⟨List.forall_mem_nil _, List.Pairwise.nil⟩
    have hkept := step_kept hfresh op (h.resolve_left hgone) (not_not.mp hgone)
    rw [outputs, List.filterMap_cons]
    rcases hkept.next with hlost | hnext
    · rw [issued_givenUp _ hlost]
      cases hid : armedId (op.step choose w).1 with
      | none => exact ⟨List.forall_mem_nil _, List.Pairwise.nil⟩
      | some id =>
        have hfirst := (hkept.armed id hid).1
        refine ⟨?_, List.pairwise_singleton _ _⟩
        intro id' hid'
        rw [List.mem_singleton.mp hid']
        omega
    obtain ⟨hge, hpairwise⟩ := ih hkept.inSync
    cases hid : armedId (op.step choose w).1 with
    | none => exact ⟨fun id hmem => hnext.trans (hge id hmem), hpairwise⟩
    | some id =>
      obtain ⟨hfirst, hlt⟩ := hkept.armed id hid
      refine ⟨?_, List.pairwise_cons.mpr ⟨fun id' hid' => hlt.trans_le (hge id' hid'), hpairwise⟩⟩
      rw [List.forall_mem_cons]
      exact ⟨hfirst.ge, fun id' hid' => hnext.trans (hge id' hid')⟩

structure Agrees (w : World) : Prop where
  inventory : parseInventory (encodeHexText w.native.inventoryText) =
    .ok (w.bridge.breakpoints.map fun entry => nativePoint entry.1 entry.2).toFinset
  native : w.native.points.toFinset = (w.bridge.breakpoints.map fun entry => nativePoint entry.1 entry.2).toFinset
  distinct : w.native.points.Nodup
  range : ∀ entry ∈ w.bridge.breakpoints, entry.2.start ≤ entry.2.stop ∧ entry.2.stop ≤ 0xffff
  apart : w.bridge.breakpoints.Pairwise fun e f => Apart e.2 f.2
  few : w.bridge.breakpoints.length ≤ 128
  specs : ∀ id, OrdMap.find? id w.native.specs =
    (OrdMap.find? id w.bridge.breakpoints).map fun p => p.snapshots.map specValue

theorem Synced.agrees (h : Synced w.bridge w.native.points w.native.specs) : Agrees w := by
  have hset := List.toFinset_eq_of_perm _ _ h.points
  refine ⟨?_, hset, h.nodup, ?_, h.apart, h.few, h.specs⟩
  · rw [parseInventory_inventoryText h.fine h.nodup, hset]
  · exact fun entry hentry => ⟨(h.admissible entry hentry).ordered, (h.admissible entry hentry).stop⟩

theorem synced_new (regionSizes : MemoryType → ℕ) (launchId : Option String) :
    Synced (Bridge.new regionSizes launchId) [] [] :=
  ⟨List.Perm.nil, fun _ => rfl, List.nodup_nil, List.Pairwise.nil, nofun, (by decide : 1 < 2 ^ 64), nofun,
    List.Pairwise.nil, Nat.zero_le _⟩

/-- Whatever the methods, their parameters and the refused commands are: as long as the debugger was not given up, the
public map is the native set and the specifications are those of the map; a method that failed left both as they
were, `clear_all` having removed the first ones at most; and no identifier is issued twice. -/
theorem breakpoints_agree (choose : Chooser) (hfresh : Fresh choose) (regionSizes : MemoryType → ℕ)
    (launchId : Option String) (turns : ℕ → Turn) (ops : List BreakpointOp) :
    let w₀ := World.new (Bridge.new regionSizes launchId) turns
    let w := runBreakpoints choose w₀ ops
    (w.bridge.debuggerFatal = none → Agrees w) ∧
      (∀ op e, (op.step choose w).1 = .error e → (op.step choose w).2.bridge.debuggerFatal = none →
        LeftAlone op w (op.step choose w).2) ∧
      ((outputs (fun w op => op.step choose w) w₀ ops).filterMap armedId).Pairwise (· < ·) := by
  intro w₀ w
  have hstart : InSync w₀ := .inr (synced_new regionSizes launchId)
  have hw : InSync w := run_inSync hfresh ops hstart
  refine ⟨fun hhealthy => ?_, fun op e herror hhealthy => ?_, (issued_increasing hfresh ops hstart).2⟩
  · exact (hw.resolve_left (not_not.mpr hhealthy)).agrees
  · have hbefore : ¬ GivenUp w := by
      intro hgone
      rw [(step_givenUp op hgone).2] at hhealthy
      exact hgone hhealthy
    have hkept := step_kept hfresh op (hw.resolve_left hbefore) (not_not.mp hbefore)
    exact (hkept.failed e herror).resolve_left (not_not.mpr hhealthy)

/-- Names that get longer: `bp#1` is the first. -/
def longerNames : Chooser := fun _ watch used =>
  (if watch then 'w' else 'b') :: 'p' :: '#' :: List.replicate (1 + used.flatten.length) '1'

theorem fresh_longerNames : Fresh longerNames := by
  intro count watch used hused
  have hle := (List.sublist_flatten_of_mem hused).length_le
  have hlength : (longerNames count watch used).length = 4 + used.flatten.length := by
    simp only [longerNames, List.length_cons, List.length_replicate]
    omega
  omega

/-- The specification of a breakpoint is refused: there is none, in the map and inside openMSX. -/
theorem breakpoints_agree_refused :
    Fresh longerNames ∧
      Agrees (runBreakpoints longerNames
        (World.new (Bridge.new (fun _ => 65536) none) fun _ => ⟨[], .error "refused"⟩)
        [.set (.obj [("start", .nat 0x4000)]), .clearAll]) := by
  refine ⟨fresh_longerNames, (breakpoints_agree longerNames fresh_longerNames _ _ _ _).1 ?_⟩
  rfl

end control

end Emucap.OpenmsxBridge
