import Mathlib.Data.List.Pairwise
import Mathlib.Data.List.Range
import Emucap.Analysis.LiveRegression

/-!
# The schedule of a replay

A replay steps through the frames `0, …, advances - 1` of its movie, each under the input of the row of that frame. The
two loops of `replay_movie_body` are one schedule: `replayRows_eq` unfolds the rows and the gaps between them into a
list with one program for each frame, by induction on the rows. A prepared case counts the same frames.
-/

namespace Emucap.Analysis

open Emucap.Lib Emucap.Live
open Emucap.InputMovie (Movie MovieFrame ControllerRow MovieError)

variable {σ τ : Type}

/-! ## The schedule of a movie -/

def rowOf (frames : List MovieFrame) (n : ℕ) : ControllerRow :=
  match frames.find? fun mf => mf.frame = n with
  | some mf => ⟨mf.buttons, mf.axes⟩
  | none => ⟨[], []⟩

def advances (movie : Movie) : ℕ :=
  match movie.frames.getLast? with
  | some last => last.frame + 1
  | none => 0

theorem rowOf_of_lt {frames : List MovieFrame} {n : ℕ} (h : ∀ mf ∈ frames, n < mf.frame) :
    rowOf frames n = ⟨[], []⟩ := by
  have hnone : frames.find? (fun mf => mf.frame = n) = none := by
    rw [List.find?_eq_none]
    intro mf hmf
    have := h mf hmf
    simp only [decide_eq_true_eq]
    omega
  rw [rowOf, hnone]

theorem rowOf_cons_self (mf : MovieFrame) (rest : List MovieFrame) :
    rowOf (mf :: rest) mf.frame = ⟨mf.buttons, mf.axes⟩ := by
  rw [rowOf, List.find?_cons_of_pos (by simp)]

theorem rowOf_cons_of_ne {mf : MovieFrame} {n : ℕ} (h : mf.frame ≠ n) (rest : List MovieFrame) :
    rowOf (mf :: rest) n = rowOf rest n := by
  rw [rowOf, List.find?_cons_of_neg (by simpa using h), rowOf]

theorem validateOrder_eq_ok {frames : List MovieFrame} (h : validateOrder frames = .ok ()) :
    frames.IsChain fun a b => a.frame < b.frame := by
  induction frames with
  | nil => exact .nil
  | cons first rest ih =>
    cases rest with
    | nil => exact .singleton _
    | cons second rest =>
      rw [validateOrder] at h
      split_ifs at h with horder
      exact .cons_cons (by omega) (ih h)

theorem pairwise_of_validate {movie : Movie} (h : validateMovieFrames movie = .ok ()) :
    movie.frames.Pairwise fun a b => a.frame < b.frame := by
  rw [validateMovieFrames, bind_eq_ok] at h
  obtain ⟨⟨⟩, horder, -⟩ := h
  have htrans : IsTrans MovieFrame fun a b => a.frame < b.frame := ⟨fun _ _ _ => Nat.lt_trans⟩
  exact (validateOrder_eq_ok horder).pairwise

def rowsEnd : ℕ → List MovieFrame → ℕ
  | next, [] => next
  | _, mf :: rest => rowsEnd (mf.frame + 1) rest

theorem le_rowsEnd {frames : List MovieFrame} {next : ℕ} (hnext : ∀ mf ∈ frames, next ≤ mf.frame)
    (horder : frames.Pairwise fun a b => a.frame < b.frame) : next ≤ rowsEnd next frames := by
  induction frames generalizing next with
  | nil => exact le_refl _
  | cons mf rest ih =>
    rw [List.pairwise_cons] at horder
    have hmf := hnext mf List.mem_cons_self
    have hrest : mf.frame + 1 ≤ rowsEnd (mf.frame + 1) rest := ih (fun a ha => horder.1 a ha) horder.2
    rw [rowsEnd]
    omega

theorem rowsEnd_zero (movie : Movie) : rowsEnd 0 movie.frames = advances movie := by
  have hgeneral : ∀ (frames : List MovieFrame) (next : ℕ), rowsEnd next frames =
      match frames.getLast? with
      | some last => last.frame + 1
      | none => next := by
    intro frames
    induction frames with
    | nil => exact fun _ => rfl
    | cons mf rest ih =>
      intro next
      rw [rowsEnd, ih, List.getLast?_cons]
      cases rest.getLast? with
      | none => rfl
      | some last => rfl
  exact hgeneral movie.frames 0

variable (r : Replay σ τ)

theorem replayGap_eq (anchored : Bool) (frames : List MovieFrame) (next rounds : ℕ)
    (h : ∀ mf ∈ frames, next + rounds ≤ mf.frame) :
    r.replayGap anchored rounds =
      untilSome ((List.range' next rounds).map fun n => r.advanceFrame anchored (rowOf frames n)) := by
  induction rounds generalizing next with
  | zero => rfl
  | succ rounds ih =>
    have hrow : rowOf frames next = ⟨[], []⟩ := by
      apply rowOf_of_lt
      intro mf hmf
      have := h mf hmf
      omega
    rw [Replay.replayGap, List.range'_succ, List.map_cons, untilSome, hrow, ih (next + 1)]
    intro mf hmf
    have := h mf hmf
    omega

theorem replayRows_eq (anchored : Bool) {frames : List MovieFrame} {next : ℕ}
    (hnext : ∀ mf ∈ frames, next ≤ mf.frame) (horder : frames.Pairwise fun a b => a.frame < b.frame) :
    r.replayRows anchored next frames =
      untilSome ((List.range' next (rowsEnd next frames - next)).map fun n =>
        r.advanceFrame anchored (rowOf frames n)) := by
  induction frames generalizing next with
  | nil => simp [Replay.replayRows, rowsEnd, untilSome]
  | cons mf rest ih =>
    rw [List.pairwise_cons] at horder
    obtain ⟨hlater, horder⟩ := horder
    have hmf := hnext mf List.mem_cons_self
    have hend : mf.frame + 1 ≤ rowsEnd (mf.frame + 1) rest := le_rowsEnd (fun a ha => hlater a ha) horder
    have hsplit : List.range' next (rowsEnd next (mf :: rest) - next) =
        List.range' next (mf.frame - next) ++
          mf.frame :: List.range' (mf.frame + 1) (rowsEnd (mf.frame + 1) rest - (mf.frame + 1)) := by
      have hlength : rowsEnd next (mf :: rest) - next =
          (mf.frame - next) + (rowsEnd (mf.frame + 1) rest - (mf.frame + 1) + 1) := by
        rw [rowsEnd]
        omega
      have hstart : next + 1 * (mf.frame - next) = mf.frame := by omega
      rw [hlength, ← List.range'_append, hstart, List.range'_succ]
    have hmax : max next mf.frame = mf.frame := by omega
    rw [Replay.replayRows, hmax, hsplit, List.map_append, untilSome_append, List.map_cons, untilSome,
      rowOf_cons_self]
    rw [replayGap_eq r anchored (mf :: rest) next (mf.frame - next), ih (fun a ha => hlater a ha) horder]
    · congr 2
      congr 1
      apply List.map_congr_left
      intro n hn
      rw [List.mem_range'_1] at hn
      rw [rowOf_cons_of_ne (by omega)]
    · intro a ha
      rcases List.mem_cons.mp ha with rfl | ha
      · omega
      · have := hlater a ha
        omega

theorem replayRows_schedule (anchored : Bool) {movie : Movie} (hmovie : validateMovieFrames movie = .ok ()) :
    r.replayRows anchored 0 movie.frames =
      untilSome ((List.range (advances movie)).map fun n => r.advanceFrame anchored (rowOf movie.frames n)) := by
  rw [replayRows_eq r anchored (fun _ _ => Nat.zero_le _) (pairwise_of_validate hmovie), rowsEnd_zero, Nat.sub_zero,
    List.range_eq_range']

theorem prepareCaseCounted_advances {texts : MovieTexts} {dir : CaseDir} {caseRecord : Case} {bytes : ℕ}
    {prepared : PreparedCase} {movie : Movie} (h : (prepareCaseCounted texts dir caseRecord bytes).1 = .ok prepared)
    (hmovie : prepared.movie = some movie) : prepared.advances = advances movie := by
  rw [prepareCaseCounted] at h
  split at h
  · cases h
  split at h
  · cases h
  split at h
  · rw [require_bind_eq_ok, bind_eq_ok] at h
    obtain ⟨-, statePath, -, hprepared⟩ := h
    cases hprepared
    cases hmovie
  · simp only [bind_eq_ok, orError_eq_ok] at h
    obtain ⟨parsed, -, n, hn, startPath, -, hprepared⟩ := h
    cases hprepared
    cases hmovie
    show n = advances movie
    unfold movieAdvances at hn
    unfold advances
    cases hlast : movie.frames.getLast? with
    | none =>
      rw [hlast] at hn
      exact (Option.some.inj hn).symm
    | some last =>
      rw [hlast] at hn
      exact (checkedAdd_eq_some.mp hn).2

end Emucap.Analysis
