import Emucap.Analysis.ReplayTrace

/-!
# The timing of a replay

A whole replay pauses, goes through its body, and cleans up. The cleanup leaves three attempts behind everything else,
whatever happened before (`cleanupReplay_emits`); a run whose pause fails has not begun with the movie. With what the
body leaves this gives the timing of every run.
-/

namespace Emucap.Analysis

open Emucap.Lib Emucap.Live
open Emucap.InputMovie (Movie MovieFrame ControllerRow)

variable {σ τ : Type} (r : Replay σ τ)

/-! ## The cleanup -/

def CleanedUp (link : EmulatorLink σ) (expectedLaunchId : Option String) (trace : List LinkStep) : Prop :=
  ∃ input breakpoints pause, trace = input ++ breakpoints ++ pause ∧
    AttemptOf link expectedLaunchId "set_input" (inputParams ⟨[], []⟩) input ∧
    AttemptOf link expectedLaunchId "clear_all_breakpoints" (.obj []) breakpoints ∧
    AttemptOf link expectedLaunchId "pause" (.obj []) pause

section attempt
variable {link : EmulatorLink σ} {expectedLaunchId : Option String} {method : String} {params : Json}
  {trace : List LinkStep}

theorem silent_of_attempt (h : AttemptOf link expectedLaunchId method params trace) : Silent trace := by
  obtain ⟨s, calls, rfl, hcalls, -⟩ := h
  intro e he
  rcases List.mem_cons.mp he with rfl | he
  · exact id
  · have hcall := hcalls e he
    cases e with
    | observed ok => exact absurd hcall id
    | _ => exact id

theorem noStep_of_attempt (h : AttemptOf link expectedLaunchId method params trace) (hmethod : method ≠ "step") :
    NoStep trace := by
  obtain ⟨s, calls, rfl, hcalls, -⟩ := h
  intro e he
  rcases List.mem_cons.mp he with rfl | he
  · exact id
  · have hcall := hcalls e he
    cases e with
    | called m p answer =>
      rcases hcall with ⟨rfl, -⟩ | rfl
      · exact hmethod
      · exact (by decide : ¬ "status" = "step")
    | _ => exact id

theorem CleanedUp.silent (h : CleanedUp link expectedLaunchId trace) : Silent trace := by
  obtain ⟨input, breakpoints, pause, rfl, hinput, hbreakpoints, hpause⟩ := h
  exact ((silent_of_attempt hinput).append (silent_of_attempt hbreakpoints)).append (silent_of_attempt hpause)

theorem CleanedUp.noStep (h : CleanedUp link expectedLaunchId trace) : NoStep trace := by
  obtain ⟨input, breakpoints, pause, rfl, hinput, hbreakpoints, hpause⟩ := h
  exact ((noStep_of_attempt hinput (by decide)).append (noStep_of_attempt hbreakpoints (by decide))).append
    (noStep_of_attempt hpause (by decide))

end attempt

theorem attemptCleanup_emits (expectedLaunchId : Option String) (method : String) (params : Json) :
    Emits (r.attemptCleanup expectedLaunchId method params) fun out new =>
      (∃ failures, out = .ok failures) ∧ AttemptOf r.link expectedLaunchId method params new := by
  have hcall : Emits (mapError r.display (callSessionCleanup r.texts r.link method params expectedLaunchId))
      fun _ new => AttemptOf r.link expectedLaunchId method params new :=
    (callSessionCleanup_emits expectedLaunchId).mapError fun _ _ h => h
  refine (hcall.attempt (Q := fun out new => (∃ result, out = .ok result) ∧
    AttemptOf r.link expectedLaunchId method params new) fun out new h => ⟨⟨out, rfl⟩, h⟩).bind
    (Q := fun _ out new => (∃ failures, out = .ok failures) ∧ new = []) ?_ ?_ ?_
  · intro result
    cases result with
    | ok v => exact emits_pure ⟨⟨[], rfl⟩, rfl⟩
    | error e => exact emits_pure ⟨⟨_, rfl⟩, rfl⟩
  · rintro result before out new ⟨-, hattempt⟩ ⟨hout, rfl⟩
    rw [List.append_nil]
    exact ⟨hout, hattempt⟩
  · rintro e before ⟨⟨result, h⟩, -⟩
    cases h

theorem cleanupReplay_emits (expectedLaunchId : Option String) :
    Emits (r.cleanupReplay expectedLaunchId) fun _ new => CleanedUp r.link expectedLaunchId new := by
  have hinput := attemptCleanup_emits r expectedLaunchId "set_input" (inputParams ⟨[], []⟩)
  have hbreakpoints := attemptCleanup_emits r expectedLaunchId "clear_all_breakpoints" (.obj [])
  have hpause := attemptCleanup_emits r expectedLaunchId "pause" (.obj [])
  refine hinput.bind (Q := fun _ _ new => ∃ breakpoints pause, new = breakpoints ++ pause ∧
    AttemptOf r.link expectedLaunchId "clear_all_breakpoints" (.obj []) breakpoints ∧
    AttemptOf r.link expectedLaunchId "pause" (.obj []) pause) (fun input => ?_) ?_ ?_
  · refine hbreakpoints.bind (Q := fun _ _ new => AttemptOf r.link expectedLaunchId "pause" (.obj []) new)
      (fun breakpoints => ?_) ?_ ?_
    · refine hpause.bind (Q := fun _ _ new => new = []) (fun pause => ?_) ?_ ?_
      · dsimp only
        split
        · exact emits_pure rfl
        · exact emits_throw rfl
      · rintro pause before out new ⟨-, hattempt⟩ rfl
        rw [List.append_nil]
        exact hattempt
      · rintro e before ⟨⟨failures, h⟩, -⟩
        cases h
    · rintro failures before out new ⟨-, hattempt⟩ hnew
      exact ⟨before, new, rfl, hattempt, hnew⟩
    · rintro e before ⟨⟨failures, h⟩, -⟩
      cases h
  · rintro failures before out new ⟨-, hattempt⟩ ⟨breakpoints, pause, rfl, hbreakpoints, hpause⟩
    exact ⟨before, breakpoints, pause, (List.append_assoc _ _ _).symm, hattempt, hbreakpoints, hpause⟩
  · rintro e before ⟨⟨failures, h⟩, -⟩
    cases h

/-! ## A whole run -/

/-- A run that got past its pause: the body, and then the cleanup. -/
def RanBody (link : EmulatorLink σ) (B : Except String (Option τ) → List LinkStep → Prop) (trace : List LinkStep) :
    Prop :=
  ∃ before v out body expectedLaunchId cleanup,
    trace = before ++ .called "pause" (.obj []) (.ok v) :: (body ++ cleanup) ∧ Silent before ∧ NoStep before ∧
      B out body ∧ CleanedUp link expectedLaunchId cleanup

/-- A run without a pause that succeeded: it has not begun with the movie. -/
def NotPaused (trace : List LinkStep) : Prop :=
  Silent trace ∧ NoStep trace ∧ ∀ v, LinkStep.called "pause" (.obj []) (.ok v) ∉ trace

section runs
variable {B : Except String (Option τ) → List LinkStep → Prop} {movie : Movie} {anchor : Option Predicate}

theorem replayPaused_emits (hbody : Emits (r.replayMovieBody movie anchor) B) :
    Emits (r.replayPaused movie anchor) fun _ new => ∃ out body expectedLaunchId cleanup, new = body ++ cleanup ∧
      B out body ∧ CleanedUp r.link expectedLaunchId cleanup := by
  refine emits_onState_bind fun s => ?_
  refine (hbody.attempt (Q := fun result new => ∃ out, result = .ok out ∧ B out new)
    fun out new h => ⟨out, rfl, h⟩).bind (Q := fun _ _ new => CleanedUp r.link (r.link.launchId s) new)
    (fun outcome => ?_) ?_ ?_
  · refine ((cleanupReplay_emits r (r.link.launchId s)).attempt (Q := fun result new => (∃ out, result = .ok out) ∧
      CleanedUp r.link (r.link.launchId s) new) fun out new h => ⟨⟨out, rfl⟩, h⟩).bind (Q := fun _ _ new => new = [])
      (fun cleanup => emits_fromExcept rfl) ?_ ?_
    · rintro cleanup before out new ⟨-, hcleanup⟩ rfl
      rw [List.append_nil]
      exact hcleanup
    · rintro e before ⟨⟨out, h⟩, -⟩
      cases h
  · rintro outcome before out new ⟨result, -, hB⟩ hcleanup
    exact ⟨result, before, _, new, rfl, hB, hcleanup⟩
  · rintro e before ⟨out, h, -⟩
    cases h

theorem notPaused_of_called {method : String} {params : Json} {out : Except String Json} {trace : List LinkStep}
    (h : CalledOnce method params out trace) (hmethod : method ≠ "step") (hpause : method ≠ "pause") :
    NotPaused trace := by
  refine ⟨h.silent, h.noStep hmethod, fun v hv => ?_⟩
  rcases h with ⟨w, -, rfl⟩ | ⟨e, -, rfl | ⟨e', rfl⟩⟩
  · rw [List.mem_singleton] at hv
    exact hpause (LinkStep.called.inj hv).1.symm
  · simp at hv
  · simp at hv

theorem validateMovieAxes_emits (movie : Movie) : Emits (r.validateMovieAxes movie) fun _ new => NotPaused new := by
  have hnil : NotPaused [] := ⟨by simp [Silent], by simp [NoStep], by simp⟩
  rw [Replay.validateMovieAxes]
  split
  · exact emits_pure hnil
  · refine (callBeforeDeadline_emits r "status" (.obj [])).bind (Q := fun _ _ new => new = [])
      (fun status => emits_fromExcept rfl) ?_ ?_
    · rintro status before out new hcall rfl
      rw [List.append_nil]
      exact notPaused_of_called hcall (by decide) (by decide)
    · intro e before hcall
      exact notPaused_of_called hcall (by decide) (by decide)

theorem replayMovieObserve_emits
    (hbody : validateMovieFrames movie = .ok () → Emits (r.replayMovieBody movie anchor) B) :
    Emits (r.replayMovieObserve movie anchor) fun _ new => NotPaused new ∨ RanBody r.link B new := by
  rw [Replay.replayMovieObserve]
  cases hmovie : validateMovieFrames movie with
  | error e => exact emits_throw (.inl ⟨by simp [Silent], by simp [NoStep], by simp⟩)
  | ok u =>
    refine (validateMovieAxes_emits r movie).bind (Q := fun _ _ new => NotPaused new ∨ RanBody r.link B new)
      (fun _ => ?_) ?_ ?_
    · refine (callBeforeDeadline_emits r "pause" (.obj [])).bind
        (fun v => replayPaused_emits r (hbody hmovie)) ?_ ?_
      · rintro v before out new hcall ⟨result, body, expected, cleanup, rfl, hB, hcleanup⟩
        rw [hcall.ok]
        exact .inr ⟨[], v, result, body, expected, cleanup, rfl, by simp [Silent], by simp [NoStep], hB, hcleanup⟩
      · intro e before hcall
        refine .inl ⟨hcall.silent, hcall.noStep (by decide), fun v hv => ?_⟩
        rcases hcall with ⟨w, h, -⟩ | ⟨e, -, rfl | ⟨e', rfl⟩⟩
        · cases h
        · simp at hv
        · simp at hv
    · rintro _ before out new ⟨hsilent, hstep, hpause⟩ (⟨hsilent', hstep', hpause'⟩ | hran)
      · refine .inl ⟨hsilent.append hsilent', hstep.append hstep', fun v hv => ?_⟩
        exact (List.mem_append.mp hv).elim (hpause v) (hpause' v)
      · obtain ⟨first, v, result, body, expected, cleanup, rfl, hfirst, hnoStep, hB, hcleanup⟩ := hran
        exact .inr ⟨before ++ first, v, result, body, expected, cleanup, (List.append_assoc _ _ _).symm,
          hsilent.append hfirst, hstep.append hnoStep, hB, hcleanup⟩
    · exact fun e before h => .inl h

end runs

/-! ## Timing -/

theorem jsonInt_inj {a b : ℤ} (h : jsonInt a = jsonInt b) : a = b := by
  cases a with
  | ofNat n =>
    cases b with
    | ofNat m => exact congrArg Int.ofNat (Json.nat.inj h)
    | negSucc m => cases h
  | negSucc n =>
    cases b with
    | ofNat m => cases h
    | negSucc m => exact congrArg Int.negSucc (Json.neg.inj h)

theorem inputParams_nil (buttons : List (List Char)) :
    inputParams ⟨buttons, []⟩ = .obj [("buttons", .arr (buttons.map fun b => .str (String.ofList b)))] := rfl

theorem inputParams_of_axes {input : ControllerRow} (h : input.axes ≠ []) :
    inputParams input =
      .obj [("axes", .obj (input.axes.map fun axis => (String.ofList axis.1, jsonInt axis.2))),
        ("buttons", .arr (input.buttons.map fun b => .str (String.ofList b)))] := by
  rw [inputParams, if_neg h]
  rfl

theorem inputParams_injective : Function.Injective inputParams := by
  have hbuttons : Function.Injective fun b : List Char => Json.str (String.ofList b) :=
    fun a b h => String.ofList_injective (Json.str.inj h)
  have haxes : Function.Injective fun axis : List Char × ℤ => (String.ofList axis.1, jsonInt axis.2) := by
    rintro ⟨name, value⟩ ⟨name', value'⟩ h
    rw [Prod.mk.injEq] at h
    exact Prod.ext (String.ofList_injective h.1) (jsonInt_inj h.2)
  rintro ⟨buttons, axes⟩ ⟨buttons', axes'⟩ h
  by_cases ha : axes = []
  · by_cases hb : axes' = []
    · subst ha hb
      simp only [inputParams_nil, Json.obj.injEq, List.cons.injEq, Prod.mk.injEq, Json.arr.injEq, true_and,
        and_true] at h
      rw [List.map_injective_iff.mpr hbuttons h]
    · subst ha
      rw [inputParams_nil, inputParams_of_axes (by exact hb)] at h
      simp at h
  · by_cases hb : axes' = []
    · subst hb
      rw [inputParams_nil, inputParams_of_axes (by exact ha)] at h
      simp at h
    · rw [inputParams_of_axes (by exact ha), inputParams_of_axes (by exact hb)] at h
      simp only [Json.obj.injEq, List.cons.injEq, Prod.mk.injEq, Json.arr.injEq, true_and, and_true] at h
      rw [List.map_injective_iff.mpr haxes h.1, List.map_injective_iff.mpr hbuttons h.2]

/-- The frames of an accepted movie are stepped through one by one, each under the input of its row. Without an anchor
the observation comes after the last of them; with an anchor it comes right after the poll that reports the hit, and
nothing is stepped any more. A run that got past its pause ends with the three calls of the cleanup. -/
theorem replay_timing (r : Replay σ τ) :
    (∀ movie, validateMovieFrames movie = .ok () →
      (∀ texts dir caseRecord bytes prepared, (prepareCaseCounted texts dir caseRecord bytes).1 = .ok prepared →
        prepared.movie = some movie → prepared.advances = advances movie) ∧
      (∀ s, NoFault (traceOf (r.replayMovieBody movie none) s) →
        ∃ steps ok, traceOf (r.replayMovieBody movie none) s = steps ++ [.observed ok] ∧ Silent steps ∧
          ∀ input, stepsUnder input steps =
            (List.range (advances movie)).map fun n => (stepParams, inputParams (rowOf movie.frames n))) ∧
      ∀ anchor s, Silent (traceOf (r.replayMovieObserve movie (some anchor)) s) ∨
        ∃ before answer ok rest, traceOf (r.replayMovieObserve movie (some anchor)) s =
            before ++ .called "poll_events" (.obj []) (.ok answer) :: .observed ok :: rest ∧
          reportsHit answer = true ∧ Silent before ∧ Silent rest ∧ NoStep rest) ∧
    (∀ movie anchor s v, .called "pause" (.obj []) (.ok v) ∈ traceOf (r.replayMovieObserve movie anchor) s →
      ∃ before expectedLaunchId cleanup, traceOf (r.replayMovieObserve movie anchor) s = before ++ cleanup ∧
        CleanedUp r.link expectedLaunchId cleanup ∧ NoStep cleanup) ∧
    Function.Injective inputParams := by
  refine ⟨fun movie hmovie => ⟨?_, ?_, ?_⟩, ?_, inputParams_injective⟩
  · exact fun texts dir caseRecord bytes prepared h hprepared => prepareCaseCounted_advances h hprepared
  · intro s hfault
    obtain ⟨-, ⟨-, h, -⟩ | ⟨steps, htrace, hsilent, -, hsteps⟩⟩ := (replayMovieBody_emits r hmovie).traceOf s
    · exact absurd hfault h
    · refine ⟨steps, _, htrace, hsilent, fun input => ?_⟩
      have hall := hsteps input
      rw [htrace, NoStep.stepsUnder_append (by simp [NoStep, LinkStep.IsStep])] at hall
      exact hall
  · intro anchor s
    have hrun := (replayMovieObserve_emits r fun _ => replayMovieBody_anchored_emits r hmovie anchor).traceOf s
    rcases hrun with ⟨hsilent, -⟩ | ⟨before, v, out, body, expected, cleanup, htrace, hbefore, -, hbody, hcleanup⟩
    · exact .inl hsilent
    · rw [htrace]
      have hpause : Silent [.called "pause" (.obj []) (.ok v)] := by simp [Silent, LinkStep.IsObserved]
      rcases hbody.watched with ⟨hsilent, -⟩ | ⟨first, answer, hhit, hfirst, -, hbody⟩
      · exact .inl (hbefore.append (hpause.append (hsilent.append hcleanup.silent)))
      · refine .inr ⟨before ++ ([.called "pause" (.obj []) (.ok v)] ++ first), answer, out.isOk, cleanup, ?_, hhit,
          hbefore.append (hpause.append hfirst), hcleanup.silent, hcleanup.noStep⟩
        rw [hbody]
        simp
  · intro movie anchor s v hv
    have hbody : validateMovieFrames movie = .ok () → Emits (r.replayMovieBody movie anchor) fun _ _ => True := by
      intro hmovie
      cases anchor with
      | none => exact (replayMovieBody_emits r hmovie).mono fun _ _ _ => trivial
      | some a => exact (replayMovieBody_anchored_emits r hmovie a).mono fun _ _ _ => trivial
    have hrun := (replayMovieObserve_emits r hbody).traceOf s
    rcases hrun with ⟨-, -, hpause⟩ | ⟨before, w, -, body, expected, cleanup, htrace, -, -, -, hcleanup⟩
    · exact absurd hv (hpause v)
    · refine ⟨before ++ .called "pause" (.obj []) (.ok w) :: body, expected, cleanup, ?_, hcleanup, hcleanup.noStep⟩
      rw [htrace]
      simp

/-- A link that answers every call, and counts them. -/
def countingReplay : Replay ℕ ℕ where
  link :=
    { call := fun _ _ n => (.ok .null, n + 1)
      supportsSessionReconnect := fun _ => false
      launchId := fun _ => none
      protocolVersion := fun _ => 1
      prepareReconnect := id }
  texts := ⟨LinkError.kind, fun _ => ""⟩
  expired := fun n => (false, n)
  observe := fun n => (.ok n, n)

def sparseMovie : Movie := ⟨[⟨1, [['a']], []⟩, ⟨3, [], [(['x'], -5)]⟩]⟩

/-- Frames without a row are stepped through without input. -/
theorem sparseMovie_timing : ∃ steps ok, traceOf (countingReplay.replayMovieBody sparseMovie none) 0 =
      steps ++ [.observed ok] ∧ Silent steps ∧ ∀ input, stepsUnder input steps =
        [(stepParams, inputParams ⟨[], []⟩), (stepParams, inputParams ⟨[['a']], []⟩),
          (stepParams, inputParams ⟨[], []⟩), (stepParams, inputParams ⟨[], [(['x'], -5)]⟩)] := by
  have hschedule : (List.range (advances sparseMovie)).map (fun n =>
        (stepParams, inputParams (rowOf sparseMovie.frames n))) =
      [(stepParams, inputParams ⟨[], []⟩), (stepParams, inputParams ⟨[['a']], []⟩),
        (stepParams, inputParams ⟨[], []⟩), (stepParams, inputParams ⟨[], [(['x'], -5)]⟩)] := by
    simp [advances, sparseMovie, List.range_succ, rowOf]
  have hfaultless : NoFault (traceOf (countingReplay.replayMovieBody sparseMovie none) 0) := by
    unfold NoFault
    decide +kernel
  rw [← hschedule]
  exact ((replay_timing countingReplay).1 sparseMovie (by decide)).2.1 0 hfaultless

end Emucap.Analysis
