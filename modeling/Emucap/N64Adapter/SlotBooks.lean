import Emucap.N64Adapter.Breakpoints

/-!
# The books of the N64 adapter

As ids only grow and the core appends, the breakpoints in the order of their ids are the array of the core in its order
(`Kept`). Every call keeps this, unless it takes a breakpoint for which there is no id left.
-/

namespace Emucap.N64Adapter

open Emucap.Lib

variable {s : Host} {spec : BreakpointSpec} {params : Json} {id : ℕ} {breakpoint : PublicBreakpoint}

/-! ## Specifications -/

structure Sane (spec : BreakpointSpec) : Prop where
  first : spec.native.address = spec.start
  last : spec.native.endaddr = spec.stop
  ordered : spec.native.address ≤ spec.native.endaddr
  bounded : spec.native.endaddr < 2 ^ 32
  size : spec.native.endaddr - spec.native.address + 1 < 2 ^ 32
  flags : spec.native.flags = bkpEnabled ||| spec.kind.flag

theorem nativeRange_ok {start stop : ℕ} {kind : Kind} {first last : ℕ} (hle : start ≤ stop)
    (h : nativeRange params start stop = .ok (kind, first, last)) :
    first = start ∧ last = stop ∧ first ≤ last ∧ last < 2 ^ 32 ∧ last - first + 1 < 2 ^ 32 := by
  have hrdram : rdramSize = 8 * 1024 * 1024 := rfl
  have hranged : ∀ {kind' : Kind}, (do
      nativeRange.checkRdram stop (textOr params "memory_type")
      return (kind', start, stop) : Except N64Error (Kind × ℕ × ℕ)) = .ok (kind, first, last) →
      first = start ∧ last = stop ∧ first ≤ last ∧ last < 2 ^ 32 ∧ last - first + 1 < 2 ^ 32 := by
    intro kind' hrun
    obtain ⟨u, hcheck, hrest⟩ := bind_eq_ok.mp hrun
    rw [nativeRange.checkRdram, require_bind_eq_ok, require_eq_ok] at hcheck
    cases hrest
    omega
  unfold nativeRange at h
  dsimp only at h
  split at h
  · simp only [require_bind_eq_ok] at h
    obtain ⟨hexact, -, hsmall, hrest⟩ := h
    cases hrest
    omega
  · exact hranged h
  · exact hranged h
  · cases h

theorem breakpointSpec_ok (h : breakpointSpec params = .ok spec) : Sane spec := by
  rw [breakpointSpec, bind_eq_ok] at h
  obtain ⟨-, -, h⟩ := h
  rw [require_bind_eq_ok] at h
  obtain ⟨-, h⟩ := h
  obtain ⟨start, -, h⟩ := bind_eq_ok.mp h
  obtain ⟨stop, -, h⟩ := bind_eq_ok.mp h
  rw [require_bind_eq_ok] at h
  obtain ⟨hle, h⟩ := h
  obtain ⟨⟨kind, first, last⟩, hrange, h⟩ := bind_eq_ok.mp h
  obtain ⟨snapshots, -, h⟩ := bind_eq_ok.mp h
  cases h
  obtain ⟨hfirst, hlast, hordered, hbounded, hsize⟩ := nativeRange_ok hle hrange
  exact ⟨hfirst, hlast, hordered, hbounded, hsize, rfl⟩

theorem flags_include (a b : Kind) :
    (bkpEnabled ||| a.flag) &&& (bkpEnabled ||| b.flag) = bkpEnabled ||| b.flag ↔ a = b := by
  cases a with
  | exec => cases b <;> decide
  | read => cases b <;> decide
  | write => cases b <;> decide

theorem lookup_matches {other : BreakpointSpec} (h : Sane spec) (h' : Sane other) :
    (decide (other.native.flags &&& spec.native.flags = spec.native.flags ∧
      other.native.address < spec.native.address + (spec.native.endaddr - spec.native.address + 1) ∧
      spec.native.address ≤ other.native.endaddr)) = true ↔ rangesOverlap other spec := by
  have hordered := h.ordered
  rw [decide_eq_true_iff, h.flags, h'.flags, flags_include, rangesOverlap]
  constructor
  · rintro ⟨hkind, hlt, hle⟩
    exact ⟨hkind, by omega, hle⟩
  · rintro ⟨hkind, hle, hle'⟩
    exact ⟨hkind, by omega, hle'⟩

theorem rangesOverlap_self (h : Sane spec) : rangesOverlap spec spec := ⟨rfl, h.ordered, h.ordered⟩

theorem forM_eq_ok {α : Type} {l : List α} {f : α → Except N64Error Unit} (h : ∀ a ∈ l, f a = .ok ()) :
    l.forM f = .ok () := by
  induction l with
  | nil => rfl
  | cons a l ih =>
    rw [List.forall_mem_cons] at h
    show (f a >>= fun _ => l.forM f) = .ok ()
    rw [h.1, ok_bind]
    exact ih h.2

/-! ## The books -/

/-- The breakpoints of the host and the array of the core agree. -/
structure Kept (s : Host) : Prop where
  native : s.native = s.breakpoints.map fun e => e.2.spec.native
  slots : s.breakpoints.map (fun e => e.2.nativeSlot) = List.range s.breakpoints.length
  ids : (s.breakpoints.map Prod.fst).Pairwise (· < ·)
  below : ∀ e ∈ s.breakpoints, e.1 < s.nextBreakpointId
  disjoint : s.breakpoints.Pairwise fun a b => ¬ rangesOverlap a.2.spec b.2.spec
  sane : ∀ e ∈ s.breakpoints, Sane e.2.spec
  few : s.breakpoints.length ≤ maxBreakpoints
  states : ∀ e ∈ s.breakpoints, e.2.armState = .armed
  idSpace : s.nextBreakpointId < 2 ^ 64

theorem kept_initial : Kept initial where
  native := rfl
  slots := rfl
  ids := .nil
  below _ h := absurd h List.not_mem_nil
  disjoint := .nil
  sane _ h := absurd h List.not_mem_nil
  few := Nat.zero_le _
  states _ h := absurd h List.not_mem_nil
  idSpace := by decide

theorem slot_eq {m before after : List (ℕ × PublicBreakpoint)} {e : ℕ × PublicBreakpoint}
    (h : m.map (fun e => e.2.nativeSlot) = List.range m.length) (hm : m = before ++ e :: after) :
    e.2.nativeSlot = before.length := by
  have hget : (m.map (fun e => e.2.nativeSlot))[before.length]? = some e.2.nativeSlot := by
    rw [hm, List.getElem?_map, List.getElem?_append_right (Nat.le_refl _), Nat.sub_self]
    rfl
  rw [h, List.getElem?_range (by rw [hm]; simp)] at hget
  exact (Option.some.inj hget).symm

theorem Kept.foundSlot (h : Kept s) {before after : List (ℕ × PublicBreakpoint)} {e : ℕ × PublicBreakpoint}
    (hs : s.breakpoints = before ++ e :: after) : foundSlot s.native e.2.spec.native = some before.length := by
  have hsane := h.sane
  have hdisjoint := h.disjoint
  rw [hs, List.pairwise_append] at hdisjoint
  rw [hs] at hsane
  have he : Sane e.2.spec := hsane e (List.mem_append_right _ List.mem_cons_self)
  rw [N64Adapter.foundSlot, lookup, h.native, hs, List.map_append, List.map_cons, List.findIdx?_append,
    List.findIdx?_eq_none_iff.mpr, Option.none_or, List.findIdx?_cons, if_pos, List.length_map]
  · simp
  · exact (lookup_matches he he).mpr (rangesOverlap_self he)
  · intro native hnative
    obtain ⟨other, hother, rfl⟩ := List.mem_map.mp hnative
    have hnot := hdisjoint.2.2 other hother e List.mem_cons_self
    rw [← lookup_matches he (hsane other (List.mem_append_left _ hother))] at hnot
    exact Bool.not_eq_true _ ▸ hnot

theorem Kept.verify (h : Kept s) : verifyNativeBreakpoints s = .ok () := by
  have hmax : maxBreakpoints = 128 := rfl
  have hfew := h.few
  have hlength : s.native.length = s.breakpoints.length := by rw [h.native, List.length_map]
  rw [verifyNativeBreakpoints, require_bind_eq_ok, require_bind_eq_ok]
  refine ⟨by omega, hlength, forM_eq_ok fun e he => ?_⟩
  obtain ⟨before, after, hs⟩ := List.append_of_mem he
  have hsane := h.sane e he
  rw [verifyBreakpoint, require_bind_eq_ok, require_eq_ok, h.foundSlot hs, slot_eq h.slots hs]
  exact ⟨⟨hsane.ordered, hsane.size⟩, rfl⟩

/-! ## Setting -/

def armed (s : Host) (spec : BreakpointSpec) : Host :=
  ⟨s.nextBreakpointId + 1, s.breakpoints ++ [(s.nextBreakpointId, ⟨spec, s.breakpoints.length, .armed⟩)],
    s.native ++ [spec.native]⟩

theorem Kept.armed (h : Kept s) (hsane : Sane spec) (hfew : s.breakpoints.length < maxBreakpoints)
    (hfresh : ∀ e ∈ s.breakpoints, ¬ rangesOverlap e.2.spec spec) (hid : s.nextBreakpointId + 1 < 2 ^ 64) :
    Kept (armed s spec) := by
  refine ⟨?_, ?_, ?_, ?_, ?_, ?_, ?_, ?_, hid⟩
  · simp [N64Adapter.armed, h.native]
  · simp [N64Adapter.armed, h.slots, List.range_succ]
  · simp only [N64Adapter.armed, List.map_append, List.map_cons, List.map_nil, List.pairwise_append]
    refine ⟨h.ids, List.pairwise_singleton _ _, fun id hid id' hid' => ?_⟩
    obtain ⟨e, he, rfl⟩ := List.mem_map.mp hid
    rw [List.mem_singleton.mp hid']
    exact h.below e he
  · simp only [N64Adapter.armed, List.forall_mem_append, List.forall_mem_singleton]
    exact ⟨fun e he => Nat.lt_succ_of_lt (h.below e he), Nat.lt_succ_self _⟩
  · simp only [N64Adapter.armed, List.pairwise_append]
    refine ⟨h.disjoint, List.pairwise_singleton _ _, fun e he e' he' => ?_⟩
    rw [List.mem_singleton.mp he']
    exact hfresh e he
  · simp only [N64Adapter.armed, List.forall_mem_append, List.forall_mem_singleton]
    exact ⟨h.sane, hsane⟩
  · simp only [N64Adapter.armed, List.length_append, List.length_singleton]
    omega
  · simp only [N64Adapter.armed, List.forall_mem_append, List.forall_mem_singleton]
    exact ⟨h.states, trivial⟩

theorem checkSet_ok {readiness : Option String} (h : checkSet readiness params s = .ok spec) :
    s.breakpoints.length < maxBreakpoints ∧ Sane spec ∧ ∀ e ∈ s.breakpoints, ¬ rangesOverlap e.2.spec spec := by
  obtain ⟨-, -, h⟩ := bind_eq_ok.mp h
  rw [require_bind_eq_ok] at h
  obtain ⟨hfew, h⟩ := h
  obtain ⟨spec', hspec, h⟩ := bind_eq_ok.mp h
  rw [require_bind_eq_ok] at h
  obtain ⟨hfresh, h⟩ := h
  cases h
  exact ⟨hfew, breakpointSpec_ok hspec, hfresh⟩

def armedResult (s : Host) (rejects : Bool) (spec : BreakpointSpec) : EStateM.Result N64Error Host Json :=
  if rejects then .error (.badState "Mupen64Plus rejected the breakpoint") s
  else if s.nextBreakpointId + 1 < 2 ^ 64 then
    .ok (.obj [("arm_state", .str "armed"), ("id", .nat s.nextBreakpointId),
      ("native_slot", .nat s.breakpoints.length), ("set", .bool true)]) (armed s spec)
  else .error (.badState "N64 breakpoint id space is exhausted") { s with native := s.native ++ [spec.native] }

theorem setBreakpoint_error {readiness : Option String} {rejects : Bool} {e : N64Error}
    (h : checkSet readiness params s = .error e) : setBreakpoint readiness rejects params s = .error e s := by
  rw [setBreakpoint, bind_run_of_ok (show (get : N64 Host) s = .ok s s from rfl), h]
  rfl

theorem setBreakpoint_ok {readiness : Option String} {rejects : Bool} (hkept : Kept s)
    (h : checkSet readiness params s = .ok spec) :
    setBreakpoint readiness rejects params s = armedResult s rejects spec := by
  obtain ⟨hfew, hsane, hfresh⟩ := checkSet_ok h
  have hlength : s.native.length = s.breakpoints.length := by rw [hkept.native, List.length_map]
  rw [setBreakpoint, bind_run_of_ok (show (get : N64 Host) s = .ok s s from rfl), h,
    bind_run_of_ok (show (fromExcept (.ok spec) : N64 _) s = .ok spec s from rfl),
    bind_run_of_ok (show numBreakpoints s = .ok s.native.length s from rfl)]
  cases rejects with
  | true => rfl
  | false =>
    have hadd : addStruct false spec.native s =
        .ok (some s.native.length) { s with native := s.native ++ [spec.native] } := rfl
    have hafter : numBreakpoints { s with native := s.native ++ [spec.native] } =
        .ok (s.native.length + 1) { s with native := s.native ++ [spec.native] } := by
      rw [numBreakpoints, bind_run_of_ok (show (get : N64 Host) _ = .ok _ _ from rfl), List.length_append]
      rfl
    rw [bind_run_of_ok hadd]
    dsimp only
    rw [bind_run_of_ok hafter, if_neg (by simp), recordBreakpoint,
      bind_run_of_ok (show (get : N64 Host) _ = .ok _ _ from rfl), armedResult, if_neg Bool.false_ne_true]
    dsimp only
    by_cases hid : s.nextBreakpointId + 1 < 2 ^ 64
    · rw [if_pos hid, if_pos hid]
      have hinsert : OrdMap.insert s.nextBreakpointId ⟨spec, s.native.length, .armed⟩ s.breakpoints =
          (armed s spec).breakpoints := by
        rw [OrdMap.insert_of_forall_lt _ hkept.below, hlength]
        rfl
      have hmodify : (modify fun t : Host => { t with
          nextBreakpointId := s.nextBreakpointId + 1,
          breakpoints := OrdMap.insert s.nextBreakpointId ⟨spec, s.native.length, .armed⟩ t.breakpoints } : N64 Unit)
          { s with native := s.native ++ [spec.native] } = .ok () (armed s spec) := by
        show EStateM.Result.ok () _ = _
        dsimp only
        rw [hinsert]
        rfl
      rw [bind_run_of_ok hmodify, bind_run_of_ok (show (get : N64 Host) _ = .ok _ _ from rfl),
        (hkept.armed hsane hfew hfresh hid).verify, hlength]
      rfl
    · rw [if_neg hid, if_neg hid]
      rfl

/-! ## Clearing -/

def shiftDown (e : ℕ × PublicBreakpoint) : ℕ × PublicBreakpoint := (e.1, { e.2 with nativeSlot := e.2.nativeSlot - 1 })

def cleared (s : Host) (before after : List (ℕ × PublicBreakpoint)) : Host :=
  ⟨s.nextBreakpointId, before ++ after.map shiftDown,
    (before ++ after).map fun e => e.2.spec.native⟩

section clearing
variable {before after : List (ℕ × PublicBreakpoint)} {e : ℕ × PublicBreakpoint}

theorem Kept.slots_split (h : Kept s) (hs : s.breakpoints = before ++ e :: after) :
    before.map (fun e => e.2.nativeSlot) = List.range before.length ∧
      after.map (fun e => e.2.nativeSlot) = (List.range after.length).map (before.length + 1 + ·) := by
  have hslots := h.slots
  rw [hs, List.map_append, List.map_cons, slot_eq h.slots hs, List.length_append, List.length_cons,
    List.range_add (n := before.length), List.range_succ_eq_map, List.map_cons, List.map_map] at hslots
  obtain ⟨hbefore, hrest⟩ := List.append_inj hslots (by simp)
  refine ⟨hbefore, ?_⟩
  rw [List.cons.injEq] at hrest
  rw [hrest.2]
  refine List.map_congr_left fun n _ => ?_
  simp only [Function.comp_apply]
  omega

theorem shiftSlots_eq {removed : ℕ} (hbefore : ∀ e ∈ before, e.2.nativeSlot < removed)
    (hafter : ∀ e ∈ after, removed < e.2.nativeSlot) :
    shiftSlots removed (before ++ after) = (before ++ after.map shiftDown, false) := by
  induction before with
  | nil =>
    induction after with
    | nil => rfl
    | cons e after ih =>
      rw [List.forall_mem_cons] at hafter
      have hslot : slotAfterClear e.2.nativeSlot removed = some (e.2.nativeSlot - 1) := by
        rw [slotAfterClear, if_neg (by omega), if_pos hafter.1]
      rw [List.nil_append, shiftSlots, hslot]
      simp only [List.nil_append] at ih
      rw [ih hafter.2]
      rfl
  | cons e before ih =>
    rw [List.forall_mem_cons] at hbefore
    have hslot : slotAfterClear e.2.nativeSlot removed = some e.2.nativeSlot := by
      rw [slotAfterClear, if_neg (by omega), if_neg (by omega)]
    rw [List.cons_append, shiftSlots, hslot]
    dsimp only
    rw [ih hbefore.2]
    rfl

theorem Kept.cleared (h : Kept s) (hs : s.breakpoints = before ++ e :: after) : Kept (cleared s before after) := by
  obtain ⟨hbefore, hafter⟩ := h.slots_split hs
  have hspec : (after.map shiftDown).map (fun e => e.2.spec) = after.map fun e => e.2.spec := by
    rw [List.map_map]
    rfl
  have hids := h.ids
  have hdisjoint := h.disjoint
  have hbelow := h.below
  have hsane := h.sane
  have hfew := h.few
  have hstates := h.states
  rw [hs] at hids hdisjoint hbelow hsane hfew hstates
  have hsublist : (before ++ after).Sublist (before ++ e :: after) :=
    (List.Sublist.refl before).append (List.sublist_cons_self e after)
  have hmem : ∀ e' ∈ before ++ after.map shiftDown, ∃ e'' ∈ before ++ e :: after, e'.1 = e''.1 ∧
      e'.2.spec = e''.2.spec ∧ e'.2.armState = e''.2.armState := by
    intro e' he'
    rcases List.mem_append.mp he' with he' | he'
    · exact ⟨e', List.mem_append_left _ he', rfl, rfl, rfl⟩
    · obtain ⟨e'', he'', rfl⟩ := List.mem_map.mp he'
      exact ⟨e'', List.mem_append_right _ (List.mem_cons_of_mem _ he''), rfl, rfl, rfl⟩
  refine ⟨?_, ?_, ?_, ?_, ?_, ?_, ?_, ?_, h.idSpace⟩
  · simp only [N64Adapter.cleared, List.map_append, List.map_map]
    rfl
  · simp only [N64Adapter.cleared, List.map_append, List.map_map, List.length_append, List.length_map]
    have hshift : after.map ((fun e => e.2.nativeSlot) ∘ shiftDown) =
        (after.map fun e => e.2.nativeSlot).map (· - 1) := by
      rw [List.map_map]
      rfl
    rw [hbefore, List.range_add, List.append_cancel_left_eq, hshift, hafter, List.map_map]
    refine List.map_congr_left fun n _ => ?_
    simp only [Function.comp_apply]
    omega
  · have hkeys : (before ++ after.map shiftDown).map Prod.fst = (before ++ after).map Prod.fst := by
      rw [List.map_append, List.map_map, List.map_append]
      rfl
    show ((before ++ after.map shiftDown).map Prod.fst).Pairwise (· < ·)
    rw [hkeys]
    exact hids.sublist (hsublist.map _)
  · intro e' he'
    obtain ⟨e'', he'', hid, -, -⟩ := hmem e' he'
    rw [hid]
    exact hbelow e'' he''
  · have hpairs : ((before ++ after.map shiftDown).map fun e => e.2.spec) =
        (before ++ after).map fun e => e.2.spec := by
      rw [List.map_append, hspec, List.map_append]
    have hsmaller := hdisjoint.sublist hsublist
    rw [← List.pairwise_map (f := fun e : ℕ × PublicBreakpoint => e.2.spec) (R := fun a b => ¬ rangesOverlap a b),
      ← hpairs, List.pairwise_map] at hsmaller
    exact hsmaller
  · intro e' he'
    obtain ⟨e'', he'', -, hspec', -⟩ := hmem e' he'
    rw [hspec']
    exact hsane e'' he''
  · simp only [N64Adapter.cleared, List.length_append, List.length_map, List.length_cons] at hfew ⊢
    omega
  · intro e' he'
    obtain ⟨e'', he'', -, -, hstate⟩ := hmem e' he'
    rw [hstate]
    exact hstates e'' he''

theorem Kept.split (h : Kept s) (hfind : OrdMap.find? id s.breakpoints = some breakpoint) :
    ∃ before after, s.breakpoints = before ++ (id, breakpoint) :: after ∧
      OrdMap.erase id s.breakpoints = before ++ after := by
  obtain ⟨before, after, hs⟩ := List.append_of_mem (OrdMap.mem_of_find? hfind)
  refine ⟨before, after, hs, ?_⟩
  have hids := h.ids
  rw [hs, List.map_append, List.map_cons, List.pairwise_append, List.pairwise_cons] at hids
  obtain ⟨-, ⟨hafter, -⟩, hbefore⟩ := hids
  rw [hs, OrdMap.erase, List.filter_append, List.filter_cons_of_neg (by simp), List.filter_eq_self.mpr,
    List.filter_eq_self.mpr]
  · intro e he
    have hlt := hafter e.1 (List.mem_map_of_mem he)
    exact decide_eq_true (Nat.ne_of_gt hlt)
  · intro e he
    have hlt := hbefore e.1 (List.mem_map_of_mem he) id List.mem_cons_self
    exact decide_eq_true (Nat.ne_of_lt hlt)

theorem clearBreakpoint_ok (h : Kept s) (hid : requiredNum params "id" = .ok id)
    (hs : s.breakpoints = before ++ (id, breakpoint) :: after)
    (hfind : OrdMap.find? id s.breakpoints = some breakpoint)
    (herase : OrdMap.erase id s.breakpoints = before ++ after) :
    clearBreakpoint params s = .ok (.obj [("cleared", .nat id)]) (cleared s before after) := by
  have hslot : breakpoint.nativeSlot = before.length := slot_eq h.slots hs
  obtain ⟨hbefore, hafter⟩ := h.slots_split hs
  have hnative : s.native.eraseIdx before.length = (before ++ after).map fun e => e.2.spec.native := by
    rw [h.native, hs, List.map_append, List.map_cons, List.eraseIdx_append_of_length_le (by simp), List.length_map,
      Nat.sub_self, List.eraseIdx_cons_zero, ← List.map_append]
  have hlength : s.native.length = before.length + after.length + 1 := by
    rw [h.native, hs, List.length_map, List.length_append, List.length_cons]
    omega
  have hshift : shiftSlots before.length (before ++ after) = (before ++ after.map shiftDown, false) := by
    refine shiftSlots_eq (fun e he => ?_) fun e he => ?_
    · have hmem : e.2.nativeSlot ∈ before.map fun e => e.2.nativeSlot := List.mem_map_of_mem he
      rw [hbefore, List.mem_range] at hmem
      exact hmem
    · have hmem : e.2.nativeSlot ∈ after.map fun e => e.2.nativeSlot := List.mem_map_of_mem he
      rw [hafter, List.mem_map] at hmem
      obtain ⟨n, -, hn⟩ := hmem
      omega
  have hverify := (h.cleared hs).verify
  have hremove : removeIdx before.length s =
      .ok true { s with native := (before ++ after).map fun e => e.2.spec.native } := by
    rw [removeIdx, bind_run_of_ok (show (get : N64 Host) s = .ok s s from rfl), hnative, hlength]
    simp only [decide_eq_true (show before.length < before.length + after.length + 1 by omega)]
    rfl
  have hcount : numBreakpoints { s with native := (before ++ after).map fun e => e.2.spec.native } =
      .ok (before.length + after.length) { s with native := (before ++ after).map fun e => e.2.spec.native } := by
    rw [numBreakpoints, bind_run_of_ok (show (get : N64 Host) _ = .ok _ _ from rfl)]
    simp only [List.length_map, List.length_append]
    rfl
  rw [clearBreakpoint, hid, bind_run_of_ok (show (fromExcept (.ok id) : N64 _) s = .ok id s from rfl),
    bind_run_of_ok (show (get : N64 Host) s = .ok s s from rfl), hfind]
  dsimp only
  rw [bind_run_of_ok (show numBreakpoints s = .ok s.native.length s from rfl), hslot, bind_run_of_ok hremove,
    bind_run_of_ok hcount, if_neg (by rw [hlength]; simp), bind_run_of_ok (show (get : N64 Host) _ = .ok _ _ from rfl)]
  dsimp only
  rw [herase, hshift]
  dsimp only
  rw [bind_run_of_ok (show (modify fun t : Host => { t with breakpoints := before ++ after.map shiftDown } : N64 Unit)
      _ = .ok () (N64Adapter.cleared s before after) from rfl), demand_bind_run_of rfl,
    bind_run_of_ok (show (get : N64 Host) _ = .ok _ _ from rfl), hverify]
  rfl

end clearing

end Emucap.N64Adapter
