import Emucap.N64Adapter.SlotBooks

/-!
# Calls on the breakpoints of the N64 adapter

Every call keeps the books, and one that fails leaves them as they were. The exception is a call that would arm the
breakpoint with the last id: the id is checked after the core has taken the breakpoint, which stays in the core.
-/

namespace Emucap.N64Adapter

open Emucap.Lib

inductive Call where
  | setBreakpoint (readiness : Option String) (rejects : Bool) (params : Json)
  | clearBreakpoint (params : Json)
  | clearAllBreakpoints

namespace Call

def perform : Call → N64 Json
  | setBreakpoint readiness rejects params => N64Adapter.setBreakpoint readiness rejects params
  | clearBreakpoint params => N64Adapter.clearBreakpoint params
  | clearAllBreakpoints => N64Adapter.clearAllBreakpoints

def after (s : Host) (call : Call) : Host :=
  match call.perform s with
  | .ok _ t => t
  | .error _ t => t

def issued (s : Host) (call : Call) : Option ℕ :=
  match call.perform s with
  | .ok reply _ => (reply.get "id").bind Json.asU64
  | .error _ _ => none

end Call

def hostAfter (s : Host) : List Call → Host
  | [] => s
  | call :: calls => hostAfter (call.after s) calls

/-- The ids that some calls have given to breakpoints. -/
def issuedIds (s : Host) : List Call → List ℕ
  | [] => []
  | call :: calls => (call.issued s).toList ++ issuedIds (call.after s) calls

/-- A breakpoint that passes all checks, and that the core takes, when only the last id is left. -/
def ExhaustsIds (s : Host) : Call → Prop
  | .setBreakpoint readiness rejects params =>
    (∃ spec, checkSet readiness params s = .ok spec) ∧ rejects = false ∧ s.nextBreakpointId + 1 = 2 ^ 64
  | _ => False

def IdsLast (s : Host) : List Call → Prop
  | [] => True
  | call :: calls => ¬ ExhaustsIds s call ∧ IdsLast (call.after s) calls

variable {s : Host} {spec : BreakpointSpec} {params : Json}

/-! ## Single calls -/

theorem clearBreakpoint_cases (h : Kept s) (params : Json) :
    (∃ e, clearBreakpoint params s = .error e s) ∨
      ∃ before id breakpoint after, s.breakpoints = before ++ (id, breakpoint) :: after ∧
        clearBreakpoint params s = .ok (.obj [("cleared", .nat id)]) (cleared s before after) := by
  cases hid : requiredNum params "id" with
  | error e =>
    refine .inl ⟨e, ?_⟩
    rw [clearBreakpoint, hid]
    rfl
  | ok id =>
    cases hfind : OrdMap.find? id s.breakpoints with
    | none =>
      refine .inl ⟨.badParams ("unknown N64 breakpoint id: " ++ toString id), ?_⟩
      rw [clearBreakpoint, hid, bind_run_of_ok (show (fromExcept (.ok id) : N64 _) s = .ok id s from rfl),
        bind_run_of_ok (show (get : N64 Host) s = .ok s s from rfl), hfind]
      rfl
    | some breakpoint =>
      obtain ⟨before, after, hs, herase⟩ := h.split hfind
      exact .inr ⟨before, id, breakpoint, after, hs, clearBreakpoint_ok h hid hs hfind herase⟩

theorem clear_first {id : ℕ} {breakpoint : PublicBreakpoint} {after : List (ℕ × PublicBreakpoint)} (h : Kept s)
    (hs : s.breakpoints = (id, breakpoint) :: after) :
    clearBreakpoint (.obj [("id", .nat id)]) s = .ok (.obj [("cleared", .nat id)]) (cleared s [] after) := by
  have hsmall : id < 2 ^ 64 := by
    have hbelow := h.below (id, breakpoint) (by rw [hs]; exact List.mem_cons_self)
    have hspace := h.idSpace
    simp only at hbelow
    omega
  have hnum : requiredNum (.obj [("id", .nat id)]) "id" = .ok id := by
    have hget : (Json.obj [("id", .nat id)]).get "id" = some (.nat id) := by simp [Json.get, OrdMap.find?_cons]
    rw [requiredNum, hget, Option.bind_some, parseNum, Json.asU64, if_pos hsmall]
    rfl
  have hfind : OrdMap.find? id s.breakpoints = some breakpoint := by
    rw [hs, OrdMap.find?_cons]
    simp
  obtain ⟨before, after', hs', herase⟩ := h.split hfind
  have hbefore : before = [] := by
    have hids := h.ids
    have hs'' := hs'
    rw [hs] at hs''
    cases before with
    | nil => rfl
    | cons e before =>
      rw [List.cons_append, List.cons.injEq] at hs''
      rw [hs', ← hs''.1, List.cons_append, List.map_cons, List.pairwise_cons] at hids
      exact absurd (hids.1 id (by simp)) (Nat.lt_irrefl _)
  subst hbefore
  obtain rfl : after = after' := by
    rw [hs, List.nil_append, List.cons.injEq] at hs'
    exact hs'.2
  exact clearBreakpoint_ok h hnum hs' hfind herase

theorem clear_each (h : Kept s) {entries : List (ℕ × PublicBreakpoint)} (hs : s.breakpoints = entries) :
    ∃ t, ((entries.map Prod.fst).forM fun id => do
        let _ ← clearBreakpoint (.obj [("id", .nat id)]) : N64 Unit) s = .ok () t ∧ Kept t ∧ t.breakpoints = [] ∧
      t.nextBreakpointId = s.nextBreakpointId := by
  induction hn : entries.length generalizing s entries with
  | zero =>
    obtain rfl := List.eq_nil_of_length_eq_zero hn
    exact ⟨s, rfl, h, hs, rfl⟩
  | succ n ih =>
    cases entries with
    | nil => simp at hn
    | cons e entries =>
      have hcleared : Kept (cleared s [] entries) := h.cleared hs
      have hclear := clear_first h hs
      have hids : (entries.map shiftDown).map Prod.fst = entries.map Prod.fst := by
        rw [List.map_map]
        rfl
      have hlength : (entries.map shiftDown).length = n := by simpa using hn
      have hrest : (cleared s [] entries).breakpoints = entries.map shiftDown := rfl
      obtain ⟨t, hrun, hkept, hempty, hnext⟩ := ih hcleared hrest hlength
      rw [hids] at hrun
      refine ⟨t, ?_, hkept, hempty, hnext⟩
      show ((do let _ ← clearBreakpoint (.obj [("id", .nat e.1)])) >>= fun _ => (entries.map Prod.fst).forM _) s = _
      rw [bind_run_of_ok (show (do let _ ← clearBreakpoint (.obj [("id", .nat e.1)]) : N64 Unit) s =
        .ok () (cleared s [] entries) by rw [bind_run_of_ok hclear]; rfl)]
      exact hrun

/-- What a call does that does not ask for the last id. -/
inductive Conduct (s : Host) (call : Call) : Prop
  | failed (e : N64Error) (h : call.perform s = .error e s)
  | armed (reply : Json) (h : call.perform s = .ok reply (call.after s))
    (hid : call.issued s = some s.nextBreakpointId)
    (hnext : (call.after s).nextBreakpointId = s.nextBreakpointId + 1)
  | cleared (reply : Json) (h : call.perform s = .ok reply (call.after s)) (hid : call.issued s = none)
    (hnext : (call.after s).nextBreakpointId = s.nextBreakpointId)

theorem Call.after_ok {call : Call} {reply : Json} {t : Host} (h : call.perform s = .ok reply t) :
    call.after s = t := by
  rw [after, h]

theorem Call.after_error {call : Call} {e : N64Error} {t : Host} (h : call.perform s = .error e t) :
    call.after s = t := by
  rw [after, h]

theorem Call.issued_ok {call : Call} {reply : Json} {t : Host} (h : call.perform s = .ok reply t) :
    call.issued s = (reply.get "id").bind Json.asU64 := by
  rw [issued, h]

theorem Call.issued_error {call : Call} {e : N64Error} {t : Host} (h : call.perform s = .error e t) :
    call.issued s = none := by
  rw [issued, h]

theorem kept_of_error {call : Call} {e : N64Error} (h : Kept s) (hfail : call.perform s = .error e s) :
    Kept (call.after s) ∧ Conduct s call := by
  rw [Call.after_error hfail]
  exact ⟨h, .failed e hfail⟩

theorem kept_of_cleared {call : Call} {value : Json} {t : Host}
    (hrun : call.perform s = .ok (.obj [("cleared", value)]) t) (hkept : Kept t)
    (hnext : t.nextBreakpointId = s.nextBreakpointId) : Kept (call.after s) ∧ Conduct s call := by
  have hafter := Call.after_ok hrun
  rw [hafter]
  refine ⟨hkept, .cleared (.obj [("cleared", value)]) ?_ ?_ ?_⟩
  · rw [hafter]
    exact hrun
  · rw [Call.issued_ok hrun]
    simp [Json.get, OrdMap.find?_cons]
  · rw [hafter]
    exact hnext

theorem set_conduct {readiness : Option String} {rejects : Bool} (h : Kept s)
    (hlast : ¬ ExhaustsIds s (.setBreakpoint readiness rejects params)) :
    Kept (Call.after s (.setBreakpoint readiness rejects params)) ∧
      Conduct s (.setBreakpoint readiness rejects params) := by
  cases hcheck : checkSet readiness params s with
  | error e => exact kept_of_error h (setBreakpoint_error hcheck)
  | ok spec =>
    have hrun : (Call.setBreakpoint readiness rejects params).perform s = armedResult s rejects spec :=
      setBreakpoint_ok h hcheck
    by_cases hrejects : rejects = true
    · rw [armedResult, if_pos hrejects] at hrun
      exact kept_of_error h hrun
    · have hspace : s.nextBreakpointId + 1 < 2 ^ 64 := by
        have hnot : s.nextBreakpointId + 1 ≠ 2 ^ 64 := fun heq =>
          hlast ⟨⟨spec, hcheck⟩, Bool.eq_false_of_not_eq_true hrejects, heq⟩
        have hbound := h.idSpace
        omega
      rw [armedResult, if_neg hrejects, if_pos hspace] at hrun
      obtain ⟨hfew, hsane, hfresh⟩ := checkSet_ok hcheck
      have hafter := Call.after_ok hrun
      have hperform := hrun
      rw [← hafter] at hperform
      rw [hafter]
      refine ⟨h.armed hsane hfew hfresh hspace, .armed _ hperform ?_ ?_⟩
      · rw [Call.issued_ok hrun]
        have hget : (Json.obj [("arm_state", .str "armed"), ("id", .nat s.nextBreakpointId),
            ("native_slot", .nat s.breakpoints.length), ("set", .bool true)]).get "id" =
            some (.nat s.nextBreakpointId) := by
          simp [Json.get, OrdMap.find?_cons]
        rw [hget, Option.bind_some, Json.asU64, if_pos h.idSpace]
      · rw [hafter]
        rfl

theorem clear_conduct (h : Kept s) (params : Json) :
    Kept (Call.after s (.clearBreakpoint params)) ∧ Conduct s (.clearBreakpoint params) := by
  rcases clearBreakpoint_cases h params with ⟨e, hrun⟩ | ⟨before, id, breakpoint, after, hs, hrun⟩
  · exact kept_of_error h hrun
  · exact kept_of_cleared hrun (h.cleared hs) rfl

theorem clearAll_conduct (h : Kept s) :
    Kept (Call.after s .clearAllBreakpoints) ∧ Conduct s .clearAllBreakpoints := by
  obtain ⟨t, hrun, hkept, -, hnext⟩ := clear_each h rfl
  have hall : Call.clearAllBreakpoints.perform s =
      .ok (.obj [("cleared", .arr ((s.breakpoints.map Prod.fst).map .nat))]) t := by
    rw [Call.perform, clearAllBreakpoints, bind_run_of_ok (show (get : N64 Host) s = .ok s s from rfl)]
    exact bind_run_of_ok hrun
  exact kept_of_cleared hall hkept hnext

theorem call_conduct {call : Call} (h : Kept s) (hlast : ¬ ExhaustsIds s call) :
    Kept (call.after s) ∧ Conduct s call := by
  cases call with
  | setBreakpoint readiness rejects params => exact set_conduct h hlast
  | clearBreakpoint params => exact clear_conduct h params
  | clearAllBreakpoints => exact clearAll_conduct h

/-! ## Runs -/

theorem kept_hostAfter {calls : List Call} (h : Kept s) (hlast : IdsLast s calls) : Kept (hostAfter s calls) := by
  induction calls generalizing s with
  | nil => exact h
  | cons call calls ih => exact ih (call_conduct h hlast.1).1 hlast.2

theorem issuedIds_increase {calls : List Call} (h : Kept s) (hlast : IdsLast s calls) :
    (issuedIds s calls).Pairwise (· < ·) ∧ ∀ id ∈ issuedIds s calls, s.nextBreakpointId ≤ id := by
  induction calls generalizing s with
  | nil => exact ⟨.nil, fun _ hid => absurd hid List.not_mem_nil⟩
  | cons call calls ih =>
    obtain ⟨hkept, hconduct⟩ := call_conduct h hlast.1
    obtain ⟨hgrow, hfrom⟩ := ih hkept hlast.2
    rw [issuedIds]
    cases hconduct with
    | failed e hfail =>
      rw [Call.after_error hfail] at hgrow hfrom
      rw [Call.issued_error hfail, Call.after_error hfail]
      exact ⟨hgrow, hfrom⟩
    | armed reply hrun hid hnext =>
      rw [hnext] at hfrom
      rw [hid, Option.toList_some, List.singleton_append, List.pairwise_cons, List.forall_mem_cons]
      exact ⟨⟨fun id hmem => hfrom id hmem, hgrow⟩, Nat.le_refl _, fun id hmem => Nat.le_of_succ_le (hfrom id hmem)⟩
    | cleared reply hrun hid hnext =>
      rw [hnext] at hfrom
      rw [hid]
      exact ⟨hgrow, hfrom⟩

def NamesKind (flags : ℕ) (kind : Kind) : Prop := ∀ other : Kind, flags &&& other.flag ≠ 0 ↔ other = kind

theorem triggerMatches_overlap {left right : BreakpointSpec} {flags accessed pc : ℕ} {kind : Kind}
    (hflags : NamesKind flags kind) (hleft : triggerMatches left flags accessed pc)
    (hright : triggerMatches right flags accessed pc) : rangesOverlap left right := by
  obtain ⟨hl, hlow, hhigh⟩ := hleft
  obtain ⟨hr, hlow', hhigh'⟩ := hright
  rw [hflags] at hl hr
  rw [hl] at hlow hhigh
  rw [hr] at hlow' hhigh'
  exact ⟨hl.trans hr.symm, by omega, by omega⟩

theorem rangesOverlap_symm {left right : BreakpointSpec} (h : rangesOverlap left right) : rangesOverlap right left :=
  ⟨h.1.symm, h.2.2, h.2.1⟩

theorem Kept.overlap_unique (h : Kept s) {e e' : ℕ × PublicBreakpoint} (he : e ∈ s.breakpoints)
    (he' : e' ∈ s.breakpoints) (hoverlap : rangesOverlap e.2.spec e'.2.spec) : e = e' := by
  have hrefl : ∀ a ∈ s.breakpoints, rangesOverlap a.2.spec a.2.spec → a = a := fun _ _ _ => rfl
  have hright : s.breakpoints.Pairwise fun a b => rangesOverlap a.2.spec b.2.spec → a = b :=
    h.disjoint.imp fun hnot hoverlap => absurd hoverlap hnot
  have hleft : s.breakpoints.Pairwise fun a b => rangesOverlap b.2.spec a.2.spec → b = a :=
    h.disjoint.imp fun hnot hoverlap => absurd (rangesOverlap_symm hoverlap) hnot
  have hall := List.Pairwise.forall_of_forall_of_flip hrefl hright hleft
  exact hall he he' hoverlap

/-- What holds of the breakpoints and of the array of the core. -/
structure Coherent (s : Host) : Prop where
  count : s.native.length = s.breakpoints.length
  slots : s.breakpoints.map (fun e => e.2.nativeSlot) = List.range s.breakpoints.length
  entries : ∀ e ∈ s.breakpoints, s.native[e.2.nativeSlot]? = some e.2.spec.native
  ranges : ∀ e ∈ s.breakpoints, e.2.spec.native =
    ⟨e.2.spec.start, e.2.spec.stop, bkpEnabled ||| e.2.spec.kind.flag⟩
  disjoint : ∀ e ∈ s.breakpoints, ∀ e' ∈ s.breakpoints, rangesOverlap e.2.spec e'.2.spec → e = e'
  verified : verifyNativeBreakpoints s = .ok ()
  triggers : ∀ flags accessed pc kind, NamesKind flags kind → ∀ e ∈ s.breakpoints, ∀ e' ∈ s.breakpoints,
    triggerMatches e.2.spec flags accessed pc → triggerMatches e'.2.spec flags accessed pc → e = e'

theorem Kept.coherent (h : Kept s) : Coherent s where
  count := by rw [h.native, List.length_map]
  slots := h.slots
  entries e he := by
    obtain ⟨before, after, hs⟩ := List.append_of_mem he
    rw [slot_eq h.slots hs, h.native, hs, List.map_append, List.getElem?_append_right (by simp), List.length_map,
      Nat.sub_self]
    rfl
  ranges e he := by
    have hsane := h.sane e he
    rw [← hsane.first, ← hsane.last, ← hsane.flags]
  disjoint e he e' he' hoverlap := h.overlap_unique he he' hoverlap
  verified := h.verify
  triggers _ _ _ _ hflags _ he _ he' hmatch hmatch' :=
    h.overlap_unique he he' (triggerMatches_overlap hflags hmatch hmatch')

theorem exhausted_call {call : Call} (h : Kept s) (hlast : ExhaustsIds s call) :
    ∃ spec, call.perform s = .error (.badState "N64 breakpoint id space is exhausted")
      { s with native := s.native ++ [spec] } := by
  cases call with
  | setBreakpoint readiness rejects params =>
    obtain ⟨⟨spec, hcheck⟩, rfl, hspace⟩ := hlast
    refine ⟨spec.native, ?_⟩
    rw [Call.perform, setBreakpoint_ok h hcheck, armedResult, if_neg Bool.false_ne_true, if_neg (by omega)]
  | clearBreakpoint params => exact hlast.elim
  | clearAllBreakpoints => exact hlast.elim

/-- In every run of calls none of which asks for the last id: the breakpoints and the core agree in every state, a
call that fails changes nothing, and the ids grow. A call for the last id fails and leaves its breakpoint behind. -/
theorem breakpoint_slots {calls : List Call} (hlast : IdsLast initial calls) :
    Coherent (hostAfter initial calls) ∧ (issuedIds initial calls).Pairwise (· < ·) ∧
      (∀ (call : Call) e t, ¬ ExhaustsIds (hostAfter initial calls) call →
        call.perform (hostAfter initial calls) = .error e t → t = hostAfter initial calls) ∧
      ∀ (call : Call), ExhaustsIds (hostAfter initial calls) call →
        ∃ e t, call.perform (hostAfter initial calls) = .error e t ∧ t.native ≠ (hostAfter initial calls).native := by
  have hkept := kept_hostAfter kept_initial hlast
  refine ⟨hkept.coherent, (issuedIds_increase kept_initial hlast).1, ?_, ?_⟩
  · intro call e t hspared hfail
    cases (call_conduct hkept hspared).2 with
    | failed e' hfail' =>
      rw [hfail', EStateM.Result.error.injEq] at hfail
      exact hfail.2.symm
    | armed reply hrun => rw [hrun] at hfail; cases hfail
    | cleared reply hrun => rw [hrun] at hfail; cases hfail
  · intro call hexhausts
    obtain ⟨spec, hrun⟩ := exhausted_call hkept hexhausts
    exact ⟨_, _, hrun, by simp⟩

def startAt (address : ℕ) : Json := .obj [("start", .nat address)]

def clearFirst : List Call :=
  [.setBreakpoint none false (startAt 0), .setBreakpoint none false (startAt 4),
    .clearBreakpoint (.obj [("id", .nat 1)])]

theorem idsLast_clearFirst : IdsLast initial clearFirst :=
  ⟨fun h => absurd h.2.2 (by decide), fun h => absurd h.2.2 (by decide +kernel), fun h => h, trivial⟩

theorem breakpoint_slots_two :
    (hostAfter initial clearFirst).breakpoints.map (fun e => (e.1, e.2.nativeSlot)) = [(2, 0)] ∧
      Coherent (hostAfter initial clearFirst) :=
  ⟨by decide +kernel, (breakpoint_slots idsLast_clearFirst).1⟩

/-! ## The last id -/

def cycles : ℕ → List Call
  | 0 => []
  | n + 1 => cycles n ++ [.setBreakpoint none false (startAt 0), .clearBreakpoint (.obj [("id", .nat (n + 1))])]

def zeroSpec : BreakpointSpec := ⟨.exec, 0, 0, ⟨0, 0, 9⟩, []⟩

theorem hostAfter_append (s : Host) (calls more : List Call) :
    hostAfter s (calls ++ more) = hostAfter (hostAfter s calls) more := by
  induction calls generalizing s with
  | nil => rfl
  | cons call calls ih => exact ih (call.after s)

theorem kept_empty {n : ℕ} (h : n < 2 ^ 64) : Kept ⟨n, [], []⟩ :=
  { kept_initial with below := fun _ he => absurd he List.not_mem_nil, idSpace := h }

theorem checkSet_zero (n : ℕ) : checkSet none (startAt 0) ⟨n, [], []⟩ = .ok zeroSpec := by
  rfl

theorem hostAfter_cycles {n : ℕ} (h : n + 1 < 2 ^ 64) : hostAfter initial (cycles n) = ⟨n + 1, [], []⟩ := by
  induction n with
  | zero => rfl
  | succ n ih =>
    have hempty : Kept ⟨n + 1, [], []⟩ := kept_empty (by omega)
    have hset : (Call.setBreakpoint none false (startAt 0)).perform ⟨n + 1, [], []⟩ =
        armedResult ⟨n + 1, [], []⟩ false zeroSpec := setBreakpoint_ok hempty (checkSet_zero (n + 1))
    rw [armedResult, if_neg Bool.false_ne_true, if_pos h] at hset
    obtain ⟨hfew, hsane, hfresh⟩ := checkSet_ok (checkSet_zero (n + 1))
    have hclear : (Call.clearBreakpoint (.obj [("id", .nat (n + 1))])).perform (armed ⟨n + 1, [], []⟩ zeroSpec) =
        _ := clear_first (hempty.armed hsane hfew hfresh h) rfl
    rw [cycles, hostAfter_append, ih (by omega), hostAfter, Call.after_ok hset, hostAfter, Call.after_ok hclear]
    rfl

/-- After all other ids have been given out, a call for the last one fails and leaves its breakpoint in the core. -/
theorem last_set_leaves_entry :
    hostAfter initial (cycles (2 ^ 64 - 2)) = ⟨2 ^ 64 - 1, [], []⟩ ∧
      (Call.setBreakpoint none false (startAt 0)).perform ⟨2 ^ 64 - 1, [], []⟩ =
        .error (.badState "N64 breakpoint id space is exhausted") ⟨2 ^ 64 - 1, [], [⟨0, 0, 9⟩]⟩ := by
  refine ⟨hostAfter_cycles (by omega), ?_⟩
  have hempty : Kept ⟨2 ^ 64 - 1, [], []⟩ := kept_empty (by omega)
  rw [Call.perform, setBreakpoint_ok hempty (checkSet_zero (2 ^ 64 - 1)), armedResult, if_neg Bool.false_ne_true,
    if_neg (by simp)]
  rfl

end Emucap.N64Adapter
