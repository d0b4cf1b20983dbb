import Emucap.OpenmsxBridge.BreakpointRuns

/-!
# The queue of hits

After the last drain, at hit number `last`, the oldest `dropped` hits are gone and the queue holds the lines of the
rest, in order (`Queue`). A drain turns exactly the queued lines into events (`wp_drainDebugEvents`).
-/

namespace Emucap.OpenmsxBridge

open Emucap.Lib Emucap.OpenmsxBridge.Native

/-! ## Making room -/

theorem makeRoom_eq {recordBytes : ℕ} (hfits : recordBytes ≤ 1048576) :
    ∀ (queue : List (List Char)) (dropped : ℕ), ∃ k ≤ queue.length,
      makeRoom recordBytes queue (queue.map fun l => l.length + 1).sum dropped =
        ((queue.drop k, ((queue.drop k).map fun l => l.length + 1).sum, dropped + k), true) := by
  intro queue
  induction queue with
  | nil =>
    intro dropped
    refine ⟨0, le_rfl, ?_⟩
    rw [makeRoom, if_neg (by simp; omega)]
    rfl
  | cons oldest rest ih =>
    intro dropped
    rw [makeRoom]
    split_ifs with hfull
    · obtain ⟨k, hk, hroom⟩ := ih (dropped + 1)
      have hbytes : ((oldest :: rest).map fun l => l.length + 1).sum - oldest.length - 1 =
          (rest.map fun l => l.length + 1).sum := by
        rw [List.map_cons, List.sum_cons]
        omega
      refine ⟨k + 1, by simpa using hk, ?_⟩
      rw [hbytes, hroom, List.drop_succ_cons, Nat.add_right_comm, Nat.add_assoc]
    · exact ⟨0, Nat.zero_le _, rfl⟩

/-! ## The invariant -/

/-- `l` is the line of hit number `seq`, and its point is still as it was then. -/
def LineOf (w : World) (seq : ℕ) (l : List Char) : Prop :=
  ∃ p c, w.history[seq - 1]? = some (p, c) ∧ 1 ≤ seq ∧ Captured p c ∧ p ∈ w.native.points ∧
    l = hitLine (w.native.specsOf p.publicId) p c seq

def Queueable (n : Native) (p : NativePoint) : Prop := Fine p ∧ SmallSpecs (n.specsOf p.publicId)

structure Queue (last : ℕ) (w : World) : Prop where
  lines : ∀ i l, w.native.queue[i]? = some l → LineOf w (last + w.native.dropped + 1 + i) l
  history : w.history.length = w.native.seq
  span : w.native.seq = last + w.native.dropped + w.native.queue.length
  kept : w.native.queue = [] → w.native.dropped = 0
  bytes : w.native.queueBytes = (w.native.queue.map fun l => l.length + 1).sum
  installed : ∀ p ∈ w.native.points, Queueable w.native p

/-- The emulator accepts every command, captures every hit, and makes fewer than 2^64 of them. -/
structure Orderly (w : World) : Prop where
  accepted : ∀ i, ∃ count, (w.turns i).outcome = .ok count
  captured : ∀ i, ∀ h ∈ (w.turns i).hits, Captured h.1 h.2
  few : ∀ n, w.native.seq + ((List.range n).map fun i => (w.turns i).hits.length).sum < 2 ^ 64

theorem Queue.hit {last : ℕ} {w : World} (hq : Queue last w) {h : NativePoint × Capture} (hc : Captured h.1 h.2)
    (hseq : w.native.seq + 1 < 2 ^ 64) : Queue last (w.hit h) ∧ (w.hit h).native.seq ≤ w.native.seq + 1 := by
  unfold World.hit
  split_ifs with hin
  swap
  · exact ⟨hq, Nat.le_succ _⟩
  have hspecs : ∀ id, (w.native.hit h.1 h.2).specsOf id = w.native.specsOf id := fun _ => rfl
  obtain ⟨hfine, hsmall⟩ := hq.installed h.1 hin
  have hfits := length_hitLine_le hc hsmall hseq hfine.publicId hfine.stop
  obtain ⟨k, hk, hroom⟩ := makeRoom_eq hfits w.native.queue w.native.dropped
  rw [← hq.bytes] at hroom
  have hnative : w.native.hit h.1 h.2 = { w.native with
      seq := w.native.seq + 1
      queue := w.native.queue.drop k ++ [hitLine (w.native.specsOf h.1.publicId) h.1 h.2 (w.native.seq + 1)]
      queueBytes := ((w.native.queue.drop k).map fun l => l.length + 1).sum +
        ((hitLine (w.native.specsOf h.1.publicId) h.1 h.2 (w.native.seq + 1)).length + 1)
      dropped := w.native.dropped + k } := by
    simp only [Native.hit, record_eq_hitLine, hroom, if_true]
  have hspan := hq.span
  have hhistory := hq.history
  refine ⟨?_, by rw [hnative]⟩
  rw [hnative]
  refine ⟨?_, ?_, ?_, ?_, ?_, ?_⟩
  · intro i l hl
    by_cases hi : i < w.native.queue.length - k
    · rw [List.getElem?_append_left (by simpa using hi), List.getElem?_drop] at hl
      obtain ⟨p, c, hpast, hpos, hrest⟩ := hq.lines (k + i) l hl
      have hbound : last + w.native.dropped + 1 + (k + i) - 1 < w.history.length := by omega
      have hnumber : last + (w.native.dropped + k) + 1 + i = last + w.native.dropped + 1 + (k + i) := by omega
      rw [hnumber]
      exact ⟨p, c, (List.getElem?_append_left hbound).trans hpast, hpos, hrest⟩
    · have hlast : i = (w.native.queue.drop k).length := by
        have hlt := (List.getElem?_eq_some_iff.mp hl).1
        rw [List.length_append, List.length_singleton, List.length_drop] at hlt
        rw [List.length_drop]
        omega
      rw [hlast, List.getElem?_concat_length, Option.some.injEq] at hl
      have hnumber : last + (w.native.dropped + k) + 1 + i = w.native.seq + 1 := by
        rw [hlast, List.length_drop]
        omega
      rw [hnumber, ← hl]
      refine ⟨h.1, h.2, ?_, Nat.le_add_left 1 _, hc, hin, rfl⟩
      rw [Nat.add_sub_cancel, ← hhistory, List.getElem?_concat_length]
  · simp [hhistory]
  · simp only [List.length_append, List.length_drop, List.length_singleton]
    omega
  · simp
  · simp
  · exact hq.installed

/-- The parts of the state that the methods are about, with the queue. `past` are hits that have happened before. -/
structure Live (b : Bridge) (ps : List NativePoint) (ss : List (ℕ × List SpecValue))
    (past : List (NativePoint × Capture)) (w : World) : Prop where
  here : At b ps ss w
  queue : Queue b.lastHitSeq w
  orderly : Orderly w
  past : past <+: w.history

section live
variable {choose : Chooser} {b : Bridge} {points : List NativePoint} {specs : List (ℕ × List SpecValue)}
  {past : List (NativePoint × Capture)} {w : World}

def World.met (w : World) : World := { w.hits (w.turns 0).hits with turns := fun i => w.turns (i + 1) }

theorem hits_live {last : ℕ} (hits : List (NativePoint × Capture)) :
    ∀ {w : World}, Queue last w → (∀ h ∈ hits, Captured h.1 h.2) → w.native.seq + hits.length < 2 ^ 64 →
      Queue last (w.hits hits) ∧ (w.hits hits).native.seq ≤ w.native.seq + hits.length ∧
        w.history <+: (w.hits hits).history ∧ (w.hits hits).turns = w.turns := by
  induction hits with
  | nil =>
    intro w hq _ _
    exact ⟨hq, le_rfl, List.prefix_rfl, rfl⟩
  | cons h hits ih =>
    intro w hq hcaptured hfew
    rw [List.forall_mem_cons] at hcaptured
    rw [List.length_cons] at hfew
    obtain ⟨hq', hseq⟩ := hq.hit hcaptured.1 (by omega)
    have hgrown : w.history <+: (w.hit h).history ∧ (w.hit h).turns = w.turns := by
      unfold World.hit
      split_ifs
      · exact ⟨List.prefix_append _ _, rfl⟩
      · exact ⟨List.prefix_rfl, rfl⟩
    obtain ⟨hq'', hseq', hpast, hturns⟩ := ih hq' hcaptured.2 (by omega)
    refine ⟨hq'', ?_, hgrown.1.trans hpast, hturns.trans hgrown.2⟩
    have hle : (w.hits (h :: hits)).native.seq = ((w.hit h).hits hits).native.seq := rfl
    rw [List.length_cons, hle]
    omega

theorem Live.met (h : Live b points specs past w) : Live b points specs past w.met := by
  have hfew := h.orderly.few 1
  rw [List.range_one, List.map_singleton, List.sum_singleton] at hfew
  obtain ⟨hq, hseq, hgrown, -⟩ := hits_live (w.turns 0).hits h.queue (h.orderly.captured 0) hfew
  have hat := h.here.hits (w.turns 0).hits
  refine ⟨⟨hat.bridge, hat.points, hat.specs⟩, ⟨hq.lines, hq.history, hq.span, hq.kept, hq.bytes, hq.installed⟩,
    ⟨fun i => h.orderly.accepted (i + 1), fun i => h.orderly.captured (i + 1), fun n => ?_⟩, h.past.trans hgrown⟩
  have hfew' := h.orderly.few (n + 1)
  rw [List.range_succ_eq_map, List.map_cons, List.sum_cons, List.map_map] at hfew'
  have hsum : ((List.range n).map ((fun i => (w.turns i).hits.length) ∘ Nat.succ)).sum =
      ((List.range n).map fun i => (w.met.turns i).hits.length).sum := rfl
  rw [hsum] at hfew'
  have hle : w.met.native.seq ≤ w.native.seq + (w.turns 0).hits.length := hseq
  omega

theorem wp_command_live {c : Command} {Q : List Char → World → Prop} {E : BridgeError → World → Prop}
    (h : Live b points specs past w)
    (hQ : ∀ count, Q (w.met.native.exec choose count c).1
      { w.met with native := (w.met.native.exec choose count c).2 }) : wp (command choose c) Q E w := by
  obtain ⟨count, hcount⟩ := h.orderly.accepted 0
  unfold wp command
  simp only [hcount]
  exact hQ count

/-! ## Commands that keep the queue -/

def Pending (w : World) (p : NativePoint) : Prop :=
  ∃ c seq, hitLine (w.native.specsOf p.publicId) p c seq ∈ w.native.queue

theorem Queue.spare {last : ℕ} {ps : List NativePoint} {ss : List (ℕ × List SpecValue)} (hq : Queue last w)
    (hpending : ∀ p ∈ w.native.points, Pending w p →
      p ∈ ps ∧ (OrdMap.find? p.publicId ss).getD [] = w.native.specsOf p.publicId)
    (hinstalled : ∀ p ∈ ps, Fine p ∧ SmallSpecs ((OrdMap.find? p.publicId ss).getD [])) :
    Queue last { w with native := { w.native with points := ps, specs := ss } } := by
  refine ⟨fun i l hl => ?_, hq.history, hq.span, hq.kept, hq.bytes, hinstalled⟩
  obtain ⟨p, c, hpast, hpos, hcaptured, hmem, hline⟩ := hq.lines i l hl
  obtain ⟨hstill, hspecs⟩ := hpending p hmem ⟨c, _, hline ▸ List.mem_of_getElem? hl⟩
  refine ⟨p, c, hpast, hpos, hcaptured, hstill, ?_⟩
  rw [hline]
  show _ = hitLine ((OrdMap.find? p.publicId ss).getD []) p c _
  rw [hspecs]

theorem Live.spare {ps : List NativePoint} {ss : List (ℕ × List SpecValue)} (h : Live b points specs past w)
    (hpending : ∀ p ∈ points, Pending w p →
      p ∈ ps ∧ (OrdMap.find? p.publicId ss).getD [] = (OrdMap.find? p.publicId specs).getD [])
    (hinstalled : ∀ p ∈ ps, Fine p ∧ SmallSpecs ((OrdMap.find? p.publicId ss).getD [])) :
    Live b ps ss past { w with native := { w.native with points := ps, specs := ss } } := by
  refine ⟨⟨h.here.bridge, rfl, rfl⟩, h.queue.spare ?_ hinstalled,
    ⟨h.orderly.accepted, h.orderly.captured, h.orderly.few⟩, h.past⟩
  intro p hp
  rw [h.here.points] at hp
  rw [specsOf, h.here.specs]
  exact hpending p hp

theorem Live.installed (h : Live b points specs past w) :
    ∀ p ∈ points, Fine p ∧ SmallSpecs ((OrdMap.find? p.publicId specs).getD []) := by
  intro p hp
  have hq := h.queue.installed p (h.here.points ▸ hp)
  rw [Queueable, specsOf, h.here.specs] at hq
  exact hq

variable {Q : Unit → World → Prop} {E : BridgeError → World → Prop}

def Vacant (ps : List NativePoint) (id : ℕ) : Prop := ∀ p ∈ ps, p.publicId ≠ id

theorem Live.respec {ss : List (ℕ × List SpecValue)} (h : Live b points specs past w)
    (hsame : ∀ p ∈ points, OrdMap.find? p.publicId ss = OrdMap.find? p.publicId specs) :
    Live b points ss past { w with native := { w.native with specs := ss } } := by
  have hlive : Live b points ss past { w with native := { w.native with points := points, specs := ss } } := by
    refine h.spare (fun p hp _ => ⟨hp, by rw [hsame p hp]⟩) fun p hp => ?_
    rw [hsame p hp]
    exact h.installed p hp
  rw [← h.here.points] at hlive
  exact h.here.points ▸ hlive

theorem Live.repoint (h : Live b points specs past w) (ps : List NativePoint)
    (hpending : ∀ p ∈ points, Pending w p → p ∈ ps)
    (hinstalled : ∀ p ∈ ps, Fine p ∧ SmallSpecs ((OrdMap.find? p.publicId specs).getD [])) :
    Live b ps specs past { w with native := { w.native with points := ps } } := by
  have hlive : Live b ps specs past { w with native := { w.native with points := ps, specs := specs } } :=
    h.spare (fun p hp hpend => ⟨hpending p hp hpend, rfl⟩) hinstalled
  rw [← h.here.specs] at hlive
  exact h.here.specs ▸ hlive

theorem wp_installSnapshotSpec_live {id : ℕ} {snapshots : List SnapshotSpec} (h : Live b points specs past w)
    (hvacant : Vacant points id)
    (hQ : ∀ w', Live b points (OrdMap.insert id (snapshots.map specValue) specs) past w' → Q () w') :
    wp (installSnapshotSpec choose id snapshots) Q E w := by
  unfold installSnapshotSpec
  rw [wp_bind]
  refine wp_command_live h fun count => hQ _ ?_
  have hlive := h.met.respec fun p hp => OrdMap.find?_insert_ne (hvacant p hp) (snapshots.map specValue) specs
  simpa only [exec, h.met.here.specs] using hlive

theorem wp_uninstallSnapshotSpec_live {id : ℕ} (h : Live b points specs past w) (hvacant : Vacant points id)
    (hQ : ∀ w', Live b points (OrdMap.erase id specs) past w' → Q () w') :
    wp (uninstallSnapshotSpec choose id) Q E w := by
  unfold uninstallSnapshotSpec
  rw [wp_bind]
  refine wp_command_live h fun count => hQ _ ?_
  have hlive := h.met.respec fun p hp => OrdMap.find?_erase_ne (hvacant p hp) specs
  simpa only [exec, h.met.here.specs] using hlive

theorem wp_create_live (hfresh : Fresh choose) {kind : Kind} {start stop id : ℕ} {Q : List Char → World → Prop}
    (h : Live b points specs past w)
    (hnew : ∀ count used, Fine ⟨choose count kind.watch used, kind, start, stop, id⟩)
    (hsmall : SmallSpecs ((OrdMap.find? id specs).getD []))
    (hQ : ∀ nativeId w', (∃ count used, nativeId = choose count kind.watch used) → Unused points kind nativeId →
      Live b (points ++ [⟨nativeId, kind, start, stop, id⟩]) specs past w' → Q nativeId w') :
    wp (command choose (.create kind start stop id)) Q E w := by
  refine wp_command_live h fun count => hQ _ _ ⟨count, _, rfl⟩ ?_ ?_
  · intro p hp hwatch hsame
    refine hfresh count kind.watch ((w.met.native.collection kind.watch).map (·.nativeId)) ?_
    refine List.mem_map.mpr ⟨p, List.mem_filter.mpr ⟨?_, by simpa using hwatch⟩, hsame⟩
    rw [h.met.here.points]
    exact hp
  · have hlive := h.met.repoint (points ++ [⟨choose count kind.watch
        ((w.met.native.collection kind.watch).map (·.nativeId)), kind, start, stop, id⟩])
      (fun p hp _ => List.mem_append_left _ hp) fun p hp => ?_
    · simpa only [exec, h.met.here.points] using hlive
    · rcases List.mem_append.mp hp with hold | hnew'
      · exact h.installed p hold
      · rw [List.mem_singleton.mp hnew']
        exact ⟨hnew _ _, hsmall⟩

theorem wp_removeNativeBreakpoint_live {kind : Kind} {nativeId : List Char} (h : Live b points specs past w)
    (hpending : ∀ p ∈ points, Pending w.met p → p ∈ without kind nativeId points)
    (hQ : ∀ w', Live b (without kind nativeId points) specs past w' → Q () w') :
    wp (removeNativeBreakpoint choose kind nativeId) Q E w := by
  unfold removeNativeBreakpoint
  rw [wp_bind]
  refine wp_command_live h fun count => hQ _ ?_
  have hlive := h.met.repoint (without kind nativeId points) hpending
    fun p hp => h.installed p (List.filter_sublist.subset hp)
  simpa only [exec, without, h.met.here.points] using hlive

theorem wp_verifyNativeBreakpointsWith_live {extra : Option NativePoint} {excluded : Option ℕ}
    (h : Live b points specs past w) (hnodup : points.Nodup)
    (hexpected : points.toFinset = expectedPoints b extra excluded)
    (hQ : ∀ w', Live b points specs past w' → Q () w') :
    wp (verifyNativeBreakpointsWith choose extra excluded) Q E w := by
  unfold verifyNativeBreakpointsWith
  rw [wp_bind]
  refine wp_command_live h fun count => ?_
  have hparse : parseInventory (encodeHexText w.met.native.inventoryText) = .ok w.met.native.points.toFinset := by
    refine parseInventory_inventoryText (fun p hp => (h.met.queue.installed p hp).1) ?_
    rw [h.met.here.points]
    exact hnodup
  simp only [exec, hparse, ofExcept, wp_bind, wp_pure, wp_get, require']
  rw [h.met.here.points, h.met.here.bridge, if_pos hexpected]
  have hworld : ({ w.met with bridge := b } : World) = w.met := by
    rw [← h.met.here.bridge]
  rw [wp_pure]
  exact hQ _ (hworld.symm ▸ h.met)

/-! ## Draining -/

def Genuine (w : World) (e : Event) : Prop :=
  ∃ p c, w.history[e.hitSeq - 1]? = some (p, c) ∧ 1 ≤ e.hitSeq ∧ e.breakpointId = p.publicId ∧
    e.nativeId = p.nativeId ∧ e.kind = p.kind ∧ e.pc = c.pc ∧ e.regs = registerNames.zip c.registers

structure Fetched (last : ℕ) (w : World) (events : List Event) : Prop where
  seqs : events.map Event.hitSeq = List.range' (last + w.native.dropped + 1) events.length
  all : events.length = w.native.queue.length
  genuine : ∀ e ∈ events, Genuine w e

theorem Synced.find_of_mem (h : Synced b points specs) {p : NativePoint} (hp : p ∈ points) :
    ∃ bp, OrdMap.find? p.publicId b.breakpoints = some bp ∧ nativePoint p.publicId bp = p ∧
      OrdMap.find? p.publicId specs = some (bp.snapshots.map specValue) ∧
      ∀ s ∈ bp.snapshots, s.address + s.length < 2 ^ 64 := by
  obtain ⟨entry, hentry, rfl⟩ := List.mem_map.mp (h.points.mem_iff.mp hp)
  have hids : (b.breakpoints.map Prod.fst).Nodup := h.ids.imp fun hlt => Nat.ne_of_lt hlt
  have hsome : (OrdMap.find? entry.1 b.breakpoints).isSome = true := by
    rw [OrdMap.find?_isSome_iff]
    exact List.mem_map_of_mem hentry
  obtain ⟨bp, hbp⟩ := Option.isSome_iff_exists.mp hsome
  have hsame : (entry.1, bp) = entry := List.inj_on_of_nodup_map hids (OrdMap.mem_of_find? hbp) hentry rfl
  have hvalue : bp = entry.2 := congrArg Prod.snd hsame
  refine ⟨bp, hbp, by rw [hvalue]; rfl, ?_, ?_⟩
  · rw [h.specs, show (nativePoint entry.1 entry.2).publicId = entry.1 from rfl, hbp]
    rfl
  · rw [hvalue]
    exact (h.admissible entry hentry).range

theorem Live.parse_queue (h : Live b points specs past w) (hs : Synced b points specs) :
    ∃ events, w.native.queue.mapM (parseHitRecord b) = .ok events ∧ Fetched b.lastHitSeq w events := by
  have hparse : ∀ i l, w.native.queue[i]? = some l →
      ∃ e, parseHitRecord b l = .ok e ∧
        (e.hitSeq = b.lastHitSeq + w.native.dropped + 1 + i ∧ Genuine w e) := by
    intro i l hl
    obtain ⟨p, c, hpast, hpos, hcaptured, hmem, rfl⟩ := h.queue.lines i l hl
    have hfine := (h.queue.installed p hmem).1
    rw [h.here.points] at hmem
    obtain ⟨bp, hbp, hpoint, hspecs, hrange⟩ := hs.find_of_mem hmem
    have hvalues : w.native.specsOf p.publicId = bp.snapshots.map specValue := by
      rw [specsOf, h.here.specs, hspecs]
      rfl
    have hbound : b.lastHitSeq + w.native.dropped + 1 + i < 2 ^ 64 := by
      have hi := (List.getElem?_eq_some_iff.mp hl).1
      have hspan := h.queue.span
      have hfew := h.orderly.few 0
      rw [List.range_zero, List.map_nil, List.sum_nil] at hfew
      omega
    rw [hvalues]
    refine ⟨_, parseHitRecord_hitLine hcaptured (by omega) hbound hfine.publicId hfine.stop hbp hpoint hrange, rfl, p,
      c, hpast, hpos, rfl, congrArg NativePoint.nativeId hpoint, rfl, rfl, rfl⟩
  obtain ⟨events, hevents, hlength, hall⟩ := mapM_of_getElem? hparse
  refine ⟨events, hevents, ?_, hlength, ?_⟩
  · refine List.ext_getElem? fun i => ?_
    rw [List.getElem?_map]
    rcases he : events[i]? with _ | e
    · have hi := List.getElem?_eq_none_iff.mp he
      rw [Option.map_none, List.getElem?_eq_none_iff.mpr (by simpa using hi)]
    · have hi := (List.getElem?_eq_some_iff.mp he).1
      rw [Option.map_some, (hall i e he).1, List.getElem?_range' hi, Nat.one_mul]
  · intro e he
    obtain ⟨i, hi⟩ := List.getElem?_of_mem he
    exact (hall i e hi).2

theorem Queue.splitOn_payload {last : ℕ} (h : Queue last w) (hcodes : ∀ p ∈ w.native.points,
    ∀ v ∈ w.native.specsOf p.publicId, v.code ≠ '\n') :
    ((w.native.drainPayload.splitOn '\n').headD [] = decimal w.native.dropped) ∧
      (w.native.drainPayload.splitOn '\n').tail.filter (· ≠ []) = w.native.queue := by
  have hline : ∀ l ∈ w.native.queue, '\n' ∉ l ∧ l ≠ [] := by
    intro l hl
    obtain ⟨i, hi⟩ := List.getElem?_of_mem hl
    obtain ⟨p, c, -, -, -, hmem, rfl⟩ := h.lines i l hi
    exact ⟨newline_notMem_hitLine (hcodes p hmem) p c _, hitLine_ne_nil _ p c _⟩
  have hnumber : '\n' ∉ decimal w.native.dropped := notMem_decimal (by decide)
  unfold drainPayload
  rcases hqueue : w.native.queue with _ | ⟨l, ls⟩
  · have hpieces : (decimal w.native.dropped ++ '\n' :: ['\n'].intercalate []).splitOn '\n' =
        [decimal w.native.dropped, []] := by
      have hjoin : decimal w.native.dropped ++ '\n' :: ['\n'].intercalate [] =
          ['\n'].intercalate [decimal w.native.dropped, []] := by simp
      rw [hjoin, List.splitOn_intercalate '\n' (by simpa using hnumber) (by simp)]
    rw [hpieces]
    exact ⟨rfl, rfl⟩
  · rw [hqueue] at hline
    have hjoin : decimal w.native.dropped ++ '\n' :: ['\n'].intercalate (l :: ls) =
        ['\n'].intercalate (decimal w.native.dropped :: l :: ls) := by
      rw [List.intercalate_cons_of_ne_nil (List.cons_ne_nil l ls)]
      simp
    have hpieces := List.splitOn_intercalate '\n'
      (List.forall_mem_cons.mpr ⟨hnumber, fun l' hl' => (hline l' hl').1⟩) (List.cons_ne_nil _ _)
    rw [hjoin, hpieces]
    refine ⟨rfl, ?_⟩
    rw [List.tail_cons, List.filter_eq_self]
    intro l' hl'
    simpa using (hline l' hl').2

def drained (b : Bridge) (dropped : ℕ) (events : List Event) : Bridge :=
  { b with
    lastHitSeq := b.lastHitSeq + dropped + events.length
    debugEvents := b.debugEvents ++ events }

def World.emptied (w : World) : World :=
  { w with native := { w.native with queue := [], queueBytes := 0, dropped := 0 } }

theorem Live.drained {events : List Event} (h : Live b points specs past w)
    (hall : events.length = w.native.queue.length) :
    Live (drained b w.native.dropped events) points specs past
      { w.emptied with bridge := drained b w.native.dropped events } := by
  refine ⟨⟨rfl, h.here.points, h.here.specs⟩, ⟨nofun, h.queue.history, ?_, fun _ => rfl, rfl, h.queue.installed⟩,
    ⟨h.orderly.accepted, h.orderly.captured, h.orderly.few⟩, h.past⟩
  show w.native.seq = b.lastHitSeq + w.native.dropped + events.length + 0 + 0
  rw [hall, h.queue.span]
  rfl

theorem Fetched.last {last : ℕ} {events : List Event} {e : Event} (h : Fetched last w events)
    (he : events.getLast? = some e) : e.hitSeq = last + w.native.dropped + events.length := by
  have hseq := congrArg List.getLast? h.seqs
  rw [List.getLast?_map, he, Option.map_some, List.getLast?_range'] at hseq
  have hne : events.length ≠ 0 := by
    intro hzero
    rw [List.length_eq_zero_iff.mp hzero] at he
    cases he
  rw [if_neg hne, Option.some.injEq] at hseq
  omega

theorem wp_drainDebugEvents {Q : ℕ → World → Prop} (h : Live b points specs past w) (hs : Synced b points specs)
    (hQ : ∀ events, Fetched b.lastHitSeq w.met events →
      Q w.met.native.dropped { w.met.emptied with bridge := drained b w.met.native.dropped events }) :
    wp (drainDebugEvents choose) Q E w := by
  obtain ⟨events, hparse, hfetched⟩ := h.met.parse_queue hs
  have hcodes : ∀ p ∈ w.met.native.points, ∀ v ∈ w.met.native.specsOf p.publicId, v.code ≠ '\n' := by
    intro p hp v hv
    rw [h.met.here.points] at hp
    obtain ⟨bp, -, -, hspecs, -⟩ := hs.find_of_mem hp
    rw [specsOf, h.met.here.specs, hspecs, Option.getD_some, List.mem_map] at hv
    obtain ⟨s, -, rfl⟩ := hv
    exact s.memoryType.code_ne (by decide)
  obtain ⟨hhead, hrecords⟩ := h.met.queue.splitOn_payload hcodes
  have hbound : w.met.native.dropped < 2 ^ 64 := by
    have hspan := h.met.queue.span
    have hfew := h.met.orderly.few 0
    rw [List.range_zero, List.map_nil, List.sum_nil] at hfew
    omega
  have hkept : ¬ (w.met.native.queue = [] ∧ w.met.native.dropped ≠ 0) := fun hlost =>
    hlost.2 (h.met.queue.kept hlost.1)
  have hbridge : (w.met.emptied).bridge = b := h.met.here.bridge
  unfold drainDebugEvents
  rw [wp_bind]
  refine wp_command_live h fun count => ?_
  show wp _ Q E w.met.emptied
  simp only [exec, decodeHex_encodeHexText, orError, ofExcept, wp_bind, wp_pure, fromUtf8_utf8, String.toList_ofList,
    hhead, hrecords, parseU64_decimal hbound]
  rw [if_neg hkept]
  rw [wp_bind, wp_get, hbridge, hparse]
  simp only
  rcases hlast : events.getLast? with _ | last
  · have hnil : events = [] := List.getLast?_eq_none_iff.mp hlast
    have hdropped : w.met.native.dropped = 0 := by
      refine h.met.queue.kept (List.length_eq_zero_iff.mp ?_)
      rw [← hfetched.all, hnil, List.length_nil]
    have hsame : drained b w.met.native.dropped events = { b with debugEvents := b.debugEvents ++ events } := by
      rw [drained, hdropped, hnil]
      rfl
    have hQ' := hQ events hfetched
    rw [hsame] at hQ'
    rw [wp_bind, wp_modify, wp_pure, hbridge]
    exact hQ'
  · have hseq := hfetched.last hlast
    simp only [wp_bind, require', if_pos (show b.lastHitSeq ≤ last.hitSeq by omega), wp_pure]
    rw [if_neg (by omega)]
    rw [wp_bind, wp_modify, wp_bind, wp_modify, wp_pure, hbridge]
    have hQ' := hQ events hfetched
    rw [OpenmsxBridge.drained, ← hseq] at hQ'
    exact hQ'

end live

end Emucap.OpenmsxBridge
