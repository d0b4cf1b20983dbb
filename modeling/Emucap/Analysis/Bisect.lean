import Emucap.Lib.Checked
import Emucap.Lib.Stateful
import Mathlib.Order.Interval.Set.Basic

/-!
# Bisection

`bisect` (`analysis/bisect.rs`) looks for the first bad frame after a good one. The loop keeps a good frame below
a bad one and halves what lies between, so it ends at two neighbours, whatever the probe answers in between. An
interval of width at most `2 ^ n` takes at most `n` probes, and no sum or difference leaves the 64-bit range.
-/

namespace Emucap.Analysis

open Emucap.Lib

/-! ## Boundaries -/

/-- `k` is bad and the frame before it is good. -/
structure Boundary (f : ℕ → Bool) (lo hi k : ℕ) : Prop where
  above : lo < k
  within : k ≤ hi
  bad : f k = true
  good_before : f (k - 1) = false

theorem Boundary.mono {f : ℕ → Bool} {lo hi lo' hi' k : ℕ} (h : Boundary f lo hi k) (hlo : lo' ≤ lo)
    (hhi : hi ≤ hi') : Boundary f lo' hi' k :=
  ⟨hlo.trans_lt h.above, h.within.trans hhi, h.bad, h.good_before⟩

theorem Boundary.least {f : ℕ → Bool} {lo hi k : ℕ} (h : Boundary f lo hi k)
    (hmono : MonotoneOn f (Set.Icc lo hi)) : ∀ j, lo ≤ j → j < k → f j = false := by
  intro j hlo hj
  have habove := h.above
  have hwithin := h.within
  have hle : f j ≤ f (k - 1) := by
    apply hmono
    · exact ⟨hlo, by omega⟩
    · exact ⟨by omega, by omega⟩
    · omega
  rw [h.good_before] at hle
  exact Bool.eq_false_of_le_false hle

/-! ## The search -/

/-- Why there is no result: the probe failed, or a sum or a difference is no 64-bit number. -/
inductive Halt (ε : Type) where
  | probe (error : ε)
  | overflow
  deriving DecidableEq

structure Probe where
  frame : ℕ
  bad : Bool
  deriving DecidableEq

structure BisectResult where
  firstBad : Option ℕ
  probes : List Probe
  deriving DecidableEq

variable {ε σ : Type}

def narrow (probe : ℕ → EStateM ε σ Bool) (lo hi : ℕ) (probes : List Probe) :
    EStateM (Halt ε) σ BisectResult :=
  match _hwidth : checkedSub hi lo with
  | none => throw .overflow
  | some width =>
    if _hopen : 1 < width then
      match hmid : checkedAdd lo (width / 2) with
      | none => throw .overflow
      | some mid => do
        let bad ← mapError .probe (probe mid)
        if bad then narrow probe lo mid (probes ++ [⟨mid, bad⟩])
        else narrow probe mid hi (probes ++ [⟨mid, bad⟩])
    else pure ⟨some hi, probes⟩
termination_by hi - lo
decreasing_by
  all_goals
    obtain ⟨hle, rfl⟩ := checkedSub_eq_some.mp _hwidth
    obtain ⟨-, rfl⟩ := checkedAdd_eq_some.mp hmid
    omega

def bisect (probe : ℕ → EStateM ε σ Bool) (lo hi : ℕ) : EStateM (Halt ε) σ BisectResult := do
  let loBad ← mapError .probe (probe lo)
  let probes := [⟨lo, loBad⟩]
  if loBad then return ⟨some lo, probes⟩
  if hi ≤ lo then return ⟨none, probes⟩
  let hiBad ← mapError .probe (probe hi)
  let probes := probes ++ [⟨hi, hiBad⟩]
  if ¬ hiBad then return ⟨none, probes⟩
  narrow probe lo hi probes

theorem narrow_closed (probe : ℕ → EStateM ε σ Bool) {lo hi : ℕ} (probes : List Probe) (hle : lo ≤ hi)
    (hclosed : hi ≤ lo + 1) : narrow probe lo hi probes = pure ⟨some hi, probes⟩ := by
  have hwidth : checkedSub hi lo = some (hi - lo) := if_pos hle
  have hnot : ¬ 1 < hi - lo := by omega
  unfold narrow
  split
  · simp_all
  · simp_all

theorem narrow_open (probe : ℕ → EStateM ε σ Bool) {lo hi : ℕ} (probes : List Probe) (hopen : lo + 1 < hi)
    (hhi : hi < 2 ^ 64) : narrow probe lo hi probes = (do
      let bad ← mapError .probe (probe (lo + (hi - lo) / 2))
      if bad then narrow probe lo (lo + (hi - lo) / 2) (probes ++ [⟨lo + (hi - lo) / 2, bad⟩])
      else narrow probe (lo + (hi - lo) / 2) hi (probes ++ [⟨lo + (hi - lo) / 2, bad⟩])) := by
  have hwidth : checkedSub hi lo = some (hi - lo) := if_pos (by omega)
  have hwide : 1 < hi - lo := by omega
  have hmid : checkedAdd lo ((hi - lo) / 2) = some (lo + (hi - lo) / 2) := if_pos (by omega)
  rw [narrow]
  split
  · simp_all
  · obtain rfl := Option.some.inj (hwidth.symm.trans ‹_›)
    rw [dif_pos hwide]
    split
    · simp_all
    · obtain rfl := Option.some.inj (hmid.symm.trans ‹_›)
      rfl

/-! ## What is found -/

/-- The probe `f`, with a record of the frames it is asked for. -/
def asked (f : ℕ → Bool) (frame : ℕ) : EStateM ε (List ℕ) Bool := fun calls => .ok (f frame) (calls ++ [frame])

def answers (f : ℕ → Bool) (calls : List ℕ) : List Probe := calls.map fun frame => ⟨frame, f frame⟩

theorem asked_bind (f : ℕ → Bool) (frame : ℕ) (calls : List ℕ) {α : Type}
    (rest : Bool → EStateM (Halt ε) (List ℕ) α) :
    (mapError .probe (asked f frame) >>= rest) calls = rest (f frame) (calls ++ [frame]) :=
  bind_run_of_ok (mapError_run_eq_ok.mpr rfl)

/-- Between a good frame and a bad one the loop finds a boundary. An interval of width at most `2 ^ n` takes at
most `n` probes, since both halves of an open one have width at most `2 ^ (n - 1)`. -/
theorem narrow_run (f : ℕ → Bool) {n : ℕ} : ∀ {lo hi : ℕ} (probes : List Probe) (calls : List ℕ), lo < hi →
    hi < 2 ^ 64 → hi - lo ≤ 2 ^ n → f lo = false → f hi = true →
    ∃ k more, narrow (@asked ε f) lo hi probes calls = .ok ⟨some k, probes ++ answers f more⟩ (calls ++ more) ∧
      Boundary f lo hi k ∧ more.length ≤ n := by
  induction n with
  | zero =>
    intro lo hi probes calls hlt hhi hwidth hgood hbad
    refine ⟨hi, [], ?_, ⟨hlt, le_rfl, hbad, ?_⟩, le_rfl⟩
    · rw [narrow_closed _ _ (by omega) (by omega)]
      simp [answers, pure, EStateM.pure]
    · rw [show hi - 1 = lo by omega, hgood]
  | succ n ih =>
    intro lo hi probes calls hlt hhi hwidth hgood hbad
    by_cases hclosed : hi ≤ lo + 1
    · refine ⟨hi, [], ?_, ⟨hlt, le_rfl, hbad, ?_⟩, Nat.zero_le _⟩
      · rw [narrow_closed _ _ (by omega) hclosed]
        simp [answers, pure, EStateM.pure]
      · rw [show hi - 1 = lo by omega, hgood]
    · have hpow : 2 ^ (n + 1) = 2 * 2 ^ n := by omega
      rw [narrow_open _ _ (by omega) hhi, asked_bind]
      have hmid : lo < lo + (hi - lo) / 2 ∧ lo + (hi - lo) / 2 < hi := by omega
      generalize hm : lo + (hi - lo) / 2 = mid at hmid ⊢
      cases hanswer : f mid with
      | true =>
        obtain ⟨k, more, hrun, hboundary, hlength⟩ :=
          ih (probes ++ [⟨mid, true⟩]) (calls ++ [mid]) hmid.1 (by omega) (by omega) hgood hanswer
        refine ⟨k, mid :: more, ?_, hboundary.mono le_rfl hmid.2.le, by simpa using hlength⟩
        rw [if_pos rfl, hrun]
        simp [answers, hanswer]
      | false =>
        obtain ⟨k, more, hrun, hboundary, hlength⟩ :=
          ih (probes ++ [⟨mid, false⟩]) (calls ++ [mid]) hmid.2 hhi (by omega) hanswer hbad
        refine ⟨k, mid :: more, ?_, hboundary.mono hmid.1.le le_rfl, by simpa using hlength⟩
        rw [if_neg (by simp), hrun]
        simp [answers, hanswer]

/-- A bisection between two 64-bit frames has a result for every probe that answers, and its probes are the calls
made. A bad `lo` is the result, and without a good `lo` below a bad `hi` there is none; else the result is a
boundary, the least bad frame where `f` is monotone, and at most 64 probes follow those of the two ends. -/
theorem bisect_answers (f : ℕ → Bool) {lo hi : ℕ} (hlo : lo < 2 ^ 64) (hhi : hi < 2 ^ 64) :
    ∃ result calls, bisect (@asked ε f) lo hi [] = .ok result calls ∧ result.probes = answers f calls ∧
      (f lo = true → result.firstBad = some lo ∧ calls = [lo]) ∧
      (f lo = false → hi ≤ lo → result.firstBad = none ∧ calls = [lo]) ∧
      (f lo = false → lo < hi → f hi = false → result.firstBad = none ∧ calls = [lo, hi]) ∧
      (f lo = false → lo < hi → f hi = true → ∃ k more, result.firstBad = some k ∧ Boundary f lo hi k ∧
        (MonotoneOn f (Set.Icc lo hi) → ∀ j, lo ≤ j → j < k → f j = false) ∧
        calls = lo :: hi :: more ∧ more.length ≤ 64) := by
  rw [bisect, asked_bind]
  by_cases hfirst : f lo = true
  · rw [if_pos hfirst]
    exact ⟨_, _, rfl, by simp [answers], by simp, by simp [hfirst], by simp [hfirst], by simp [hfirst]⟩
  rw [if_neg hfirst]
  have hgood : f lo = false := by simpa using hfirst
  by_cases hempty : hi ≤ lo
  · rw [if_pos hempty]
    exact ⟨_, _, rfl, by simp [answers], by simp [hgood], by simp, fun _ hlt => by omega, fun _ hlt => by omega⟩
  rw [if_neg hempty, asked_bind]
  have hlt : lo < hi := by omega
  by_cases hlast : f hi = true
  · rw [if_neg (by simpa using hlast)]
    obtain ⟨k, more, hrun, hboundary, hlength⟩ :=
      @narrow_run ε f 64 lo hi ([⟨lo, f lo⟩] ++ [⟨hi, f hi⟩]) ([] ++ [lo] ++ [hi]) hlt hhi (by omega) hgood hlast
    refine ⟨_, _, hrun, by simp [answers], by simp [hgood], fun _ hle => by omega, by simp [hlast], fun _ _ _ => ?_⟩
    exact ⟨k, more, rfl, hboundary, hboundary.least, by simp, hlength⟩
  · rw [if_pos (by simpa using hlast)]
    exact ⟨_, _, rfl, by simp [answers], by simp [hgood], fun _ hle => by omega, by simp, by simp [hlast]⟩

theorem bisect_answers_sample : ∃ result calls, bisect (@asked String (5 ≤ ·)) 3 9 [] = .ok result calls ∧
    result.probes = answers (5 ≤ ·) calls ∧ ∃ k more, result.firstBad = some k ∧ Boundary (5 ≤ ·) 3 9 k ∧
      (∀ j, 3 ≤ j → j < k → decide (5 ≤ j) = false) ∧ calls = 3 :: 9 :: more ∧ more.length ≤ 64 := by
  obtain ⟨result, calls, hrun, hprobes, -, -, -, hfound⟩ :=
    @bisect_answers String (5 ≤ ·) 3 9 (by decide) (by decide)
  obtain ⟨k, more, hbad, hboundary, hleast, hcalls, hlength⟩ := hfound (by decide) (by decide) (by decide)
  have hmono : MonotoneOn (fun k => decide (5 ≤ k)) (Set.Icc 3 9) := by
    intro a _ b _ hab h
    have h5 : 5 ≤ a := of_decide_eq_true h
    exact decide_eq_true (h5.trans hab)
  exact ⟨result, calls, hrun, hprobes, k, more, hbad, hboundary, hleast hmono, hcalls, hlength⟩

end Emucap.Analysis
