import Emucap.Analysis.ReplaySchedule

/-!
# The trace of a replay

A frame of a replay leaves a `set_input` and a `step` in the trace of its link, and with an anchor a poll. `Replayed`
says how far a part of a replay has gone through a schedule and is composed part by part.
-/

namespace Emucap.Analysis

open Emucap.Lib Emucap.Live
open Emucap.InputMovie (Movie MovieFrame ControllerRow)

variable {σ τ : Type}

/-! ## Reading a trace -/

def stepsUnder : Json → List LinkStep → List (Json × Json)
  | _, [] => []
  | input, .called method params answer :: rest =>
    if method = "step" then (params, input) :: stepsUnder input rest
    else if method = "set_input" ∧ answer.isOk then stepsUnder params rest
    else stepsUnder input rest
  | input, _ :: rest => stepsUnder input rest

def inForce : Json → List LinkStep → Json
  | input, [] => input
  | input, .called method params answer :: rest =>
    if method = "set_input" ∧ answer.isOk then inForce params rest else inForce input rest
  | input, _ :: rest => inForce input rest

theorem stepsUnder_append (input : Json) (before new : List LinkStep) :
    stepsUnder input (before ++ new) = stepsUnder input before ++ stepsUnder (inForce input before) new := by
  induction before generalizing input with
  | nil => rfl
  | cons e before ih =>
    cases e with
    | called method params answer =>
      rw [List.cons_append, stepsUnder, stepsUnder, inForce]
      by_cases hstep : method = "step"
      · have hset : ¬ (method = "set_input" ∧ answer.isOk = true) := by simp [hstep]
        rw [if_pos hstep, if_pos hstep, if_neg hset, ih, List.cons_append]
      · rw [if_neg hstep, if_neg hstep]
        split_ifs
        · exact ih params
        · exact ih input
    | late => exact ih input
    | cleanup method params preflight => exact ih input
    | observed ok => exact ih input

def stepsOf (frames : List MovieFrame) (ns : List ℕ) : List (Json × Json) :=
  ns.map fun n => (stepParams, inputParams (rowOf frames n))

variable (r : Replay σ τ)

def Silent (trace : List LinkStep) : Prop := ∀ e ∈ trace, ¬ e.IsObserved

def NoStep (trace : List LinkStep) : Prop := ∀ e ∈ trace, ¬ e.IsStep

def NoFault (trace : List LinkStep) : Prop := ∀ e ∈ trace, ¬ e.IsFault

theorem Silent.append {a b : List LinkStep} (ha : Silent a) (hb : Silent b) : Silent (a ++ b) :=
  fun e he => (List.mem_append.mp he).elim (ha e) (hb e)

theorem NoStep.append {a b : List LinkStep} (ha : NoStep a) (hb : NoStep b) : NoStep (a ++ b) :=
  fun e he => (List.mem_append.mp he).elim (ha e) (hb e)

theorem NoFault.of_append {a b : List LinkStep} (h : NoFault (a ++ b)) : NoFault a ∧ NoFault b :=
  ⟨fun e he => h e (List.mem_append_left b he), fun e he => h e (List.mem_append_right a he)⟩

theorem NoStep.stepsUnder {trace : List LinkStep} (h : NoStep trace) (input : Json) : stepsUnder input trace = [] := by
  induction trace generalizing input with
  | nil => rfl
  | cons e rest ih =>
    have hrest : NoStep rest := fun e he => h e (List.mem_cons_of_mem _ he)
    cases e with
    | called method params answer =>
      have hmethod : ¬ method = "step" := h _ List.mem_cons_self
      rw [Analysis.stepsUnder, if_neg hmethod]
      split_ifs
      · exact ih hrest params
      · exact ih hrest input
    | late => exact ih hrest input
    | cleanup method params preflight => exact ih hrest input
    | observed ok => exact ih hrest input

theorem NoStep.stepsUnder_append {new : List LinkStep} (h : NoStep new) (input : Json) (before : List LinkStep) :
    Analysis.stepsUnder input (before ++ new) = Analysis.stepsUnder input before := by
  rw [Analysis.stepsUnder_append, h.stepsUnder, List.append_nil]

def Watched (out : Except String (Option τ)) (trace : List LinkStep) : Prop :=
  (Silent trace ∧ ∀ v, out ≠ .ok (some v)) ∨
    ∃ before answer, reportsHit answer = true ∧ Silent before ∧ out ≠ .ok none ∧
      trace = before ++ [.called "poll_events" (.obj []) (.ok answer), .observed out.isOk]

theorem Watched.before {out : Except String (Option τ)} {before new : List LinkStep} (hbefore : Silent before)
    (h : Watched out new) : Watched out (before ++ new) := by
  rcases h with ⟨hsilent, hout⟩ | ⟨middle, answer, hhit, hmiddle, hout, rfl⟩
  · exact .inl ⟨hbefore.append hsilent, hout⟩
  · exact .inr ⟨before ++ middle, answer, hhit, hbefore.append hmiddle, hout, (List.append_assoc _ _ _).symm⟩

theorem Watched.silent {trace : List LinkStep} (h : Watched (.ok none : Except String (Option τ)) trace) :
    Silent trace := by
  rcases h with ⟨hsilent, -⟩ | ⟨-, -, -, -, hout, -⟩
  · exact hsilent
  · exact absurd rfl hout

/-! ## What the parts of a replay leave -/

def CalledOnce (method : String) (params : Json) (out : Except String Json) (trace : List LinkStep) : Prop :=
  (∃ v, out = .ok v ∧ trace = [.called method params (.ok v)]) ∨
    ∃ e, out = .error e ∧ (trace = [.late] ∨ ∃ e', trace = [.called method params (.error e')])

theorem requireTime_emits :
    Emits r.requireTime fun out new => out = .ok () ∧ new = [] ∨ out = .error deadlineError ∧ new = [.late] := by
  refine emits_onState_bind fun s => ?_
  split
  · exact emits_note_bind (emits_throw (P := fun out new => out = .error deadlineError ∧ new = []) ⟨rfl, rfl⟩)
      (by rintro out new ⟨rfl, rfl⟩; exact .inr ⟨rfl, rfl⟩)
  · exact emits_pure (.inl ⟨rfl, rfl⟩)

theorem callBeforeDeadline_emits (method : String) (params : Json) :
    Emits (r.callBeforeDeadline method params) (CalledOnce method params) := by
  refine Emits.mapError (P := fun out new => (∃ v, out = .ok v ∧ new = [.called method params (.ok v)]) ∨
    ∃ e, out = .error e ∧ (new = [.late] ∨ new = [.called method params (.error e)])) ?_ ?_
  · refine (requireTime_emits r).bind (fun _ => emits_issue r.link method params) ?_ ?_
    · rintro _ before out new (⟨-, rfl⟩ | ⟨h, -⟩) rfl
      · cases out with
        | ok v => exact .inl ⟨v, rfl, rfl⟩
        | error e => exact .inr ⟨e, rfl, .inr rfl⟩
      · cases h
    · rintro e before (⟨h, -⟩ | ⟨-, rfl⟩)
      · cases h
      · exact .inr ⟨e, rfl, .inl rfl⟩
  · rintro out new (⟨v, rfl, rfl⟩ | ⟨e, rfl, h⟩)
    · exact .inl ⟨v, rfl, rfl⟩
    · refine .inr ⟨r.display e, rfl, h.imp id fun h => ⟨e, h⟩⟩

section called
variable {method : String} {params : Json} {out : Except String Json} {trace : List LinkStep}

theorem CalledOnce.silent (h : CalledOnce method params out trace) : Silent trace := by
  rcases h with ⟨v, -, rfl⟩ | ⟨e, -, rfl | ⟨e', rfl⟩⟩ <;> simp [Silent, LinkStep.IsObserved]

theorem CalledOnce.noStep (h : CalledOnce method params out trace) (hmethod : method ≠ "step") : NoStep trace := by
  rcases h with ⟨v, -, rfl⟩ | ⟨e, -, rfl | ⟨e', rfl⟩⟩ <;> simp [NoStep, LinkStep.IsStep, hmethod]

theorem CalledOnce.fault {e : String} (h : CalledOnce method params (.error e) trace) : ¬ NoFault trace := by
  rcases h with ⟨v, h, -⟩ | ⟨e, -, rfl | ⟨e', rfl⟩⟩
  · cases h
  · simp [NoFault, LinkStep.IsFault]
  · simp [NoFault, LinkStep.IsFault]

theorem CalledOnce.ok {v : Json} (h : CalledOnce method params (.ok v) trace) :
    trace = [.called method params (.ok v)] := by
  rcases h with ⟨w, hw, rfl⟩ | ⟨e, h, -⟩
  · cases hw
    rfl
  · cases h

end called

theorem observeNow_emits : Emits r.observeNow fun out new => new = [.observed out.isOk] := by
  refine emits_onState_bind fun s => ?_
  exact emits_note_bind (P := fun out new => out = (r.observe s).1 ∧ new = [])
    (emits_fromExcept ⟨rfl, rfl⟩) (by rintro out new ⟨rfl, rfl⟩; rfl)

theorem observeBeforeDeadline_emits :
    Emits r.observeBeforeDeadline fun out new =>
      new = [.observed out.isOk] ∨ new = [.late] ∧ ∃ e, out = .error e := by
  refine Emits.bind (P := fun out new => out = .ok () ∧ new = [] ∨ (∃ e, out = .error e) ∧ new = [.late])
    ((requireTime_emits r).mapError ?_) (fun _ => observeNow_emits r) ?_ ?_
  · rintro out new (⟨rfl, rfl⟩ | ⟨rfl, rfl⟩)
    · exact .inl ⟨rfl, rfl⟩
    · exact .inr ⟨⟨_, rfl⟩, rfl⟩
  · rintro _ before out new (⟨-, rfl⟩ | ⟨⟨e, h⟩, -⟩) rfl
    · exact .inl rfl
    · cases h
  · rintro e before (⟨h, -⟩ | ⟨-, rfl⟩)
    · cases h
    · exact .inr ⟨rfl, e, rfl⟩

theorem pollAnchorObserve_emits :
    Emits r.pollAnchorObserve fun out new => Watched out new ∧ NoStep new := by
  refine (callBeforeDeadline_emits r "poll_events" (.obj [])).bind (Q := fun answer out new =>
    new = [] ∧ out = .ok none ∨
      reportsHit answer = true ∧ out ≠ .ok none ∧ (new = [.observed out.isOk] ∨ new = [.late] ∧ ∃ e, out = .error e))
    ?_ ?_ ?_
  · intro answer
    by_cases hhit : reportsHit answer = true
    · rw [if_pos hhit]
      refine (observeBeforeDeadline_emits r).map ?_
      intro out new h
      cases out with
      | ok v => exact .inr ⟨hhit, nofun, h.imp id fun ⟨_, e, he⟩ => (by cases he)⟩
      | error e => exact .inr ⟨hhit, nofun, h.imp id fun ⟨hnew, _⟩ => ⟨hnew, e, rfl⟩⟩
    · rw [if_neg hhit]
      exact emits_pure (.inl ⟨rfl, rfl⟩)
  · rintro answer before out new hcall (⟨rfl, rfl⟩ | ⟨hhit, hout, rfl | ⟨rfl, e, rfl⟩⟩)
    · rw [List.append_nil]
      exact ⟨.inl ⟨hcall.silent, nofun⟩, hcall.noStep (by decide)⟩
    · refine ⟨.inr ⟨[], answer, hhit, by simp [Silent], hout, by rw [hcall.ok]; rfl⟩, ?_⟩
      exact (hcall.noStep (by decide)).append (by simp [NoStep, LinkStep.IsStep])
    · refine ⟨.inl ⟨hcall.silent.append (by simp [Silent, LinkStep.IsObserved]), nofun⟩, ?_⟩
      exact (hcall.noStep (by decide)).append (by simp [NoStep, LinkStep.IsStep])
  · intro e before hcall
    exact ⟨.inl ⟨hcall.silent, nofun⟩, hcall.noStep (by decide)⟩

/-! ## A frame -/

/-- What a part of a replay leaves that goes through the steps of a schedule: all of them, or the first ones if it fails
or observes before. -/
structure Replayed (anchored : Bool) (schedule : List (Json × Json)) (out : Except String (Option τ))
    (trace : List LinkStep) : Prop where
  steps : ∀ i, stepsUnder i trace <+: schedule
  stepped : out = .ok none → ∀ i, stepsUnder i trace = schedule
  watched : Watched out trace
  unanchored : anchored = false → Silent trace ∧ (NoFault trace → out = .ok none)

theorem Replayed.of_failed {anchored : Bool} {schedule : List (Json × Json)} {e : String} {trace : List LinkStep}
    (hsilent : Silent trace) (hfault : ¬ NoFault trace) (hsteps : ∀ i, stepsUnder i trace <+: schedule) :
    Replayed anchored schedule (.error e : Except String (Option τ)) trace where
  steps := hsteps
  stepped := nofun
  watched := .inl ⟨hsilent, nofun⟩
  unanchored := fun _ => ⟨hsilent, fun h => absurd h hfault⟩

theorem Replayed.append {anchored : Bool} {first rest : List (Json × Json)} {out : Except String (Option τ)}
    {before new : List LinkStep} (h : Replayed anchored first (.ok none : Except String (Option τ)) before)
    (hrest : Replayed anchored rest out new) : Replayed anchored (first ++ rest) out (before ++ new) where
  steps := by
    intro i
    rw [stepsUnder_append, h.stepped rfl]
    exact (List.prefix_append_right_inj first).mpr (hrest.steps _)
  stepped := by
    intro hout i
    rw [stepsUnder_append, h.stepped rfl, hrest.stepped hout]
  watched := hrest.watched.before h.watched.silent
  unanchored := by
    intro hanchored
    obtain ⟨hsilent, hout⟩ := hrest.unanchored hanchored
    exact ⟨h.watched.silent.append hsilent, fun hfault => hout hfault.of_append.2⟩

theorem Replayed.stop {anchored : Bool} {first : List (Json × Json)} {out : Except String (Option τ)}
    {trace : List LinkStep} (h : Replayed anchored first out trace) (hout : out ≠ .ok none)
    (rest : List (Json × Json)) : Replayed anchored (first ++ rest) out trace where
  steps := fun i => (h.steps i).trans (List.prefix_append first rest)
  stepped := fun h => absurd h hout
  watched := h.watched
  unanchored := h.unanchored

theorem replayed_nil (anchored : Bool) : Replayed anchored [] (.ok none : Except String (Option τ)) [] where
  steps := fun _ => List.nil_prefix
  stepped := fun _ _ => rfl
  watched := .inl ⟨by simp [Silent], nofun⟩
  unanchored := fun _ => ⟨by simp [Silent], fun _ => rfl⟩

def SteppedThen (anchored : Bool) (out : Except String (Option τ)) (trace : List LinkStep) : Prop :=
  (∃ e, out = .error e ∧ CalledOnce "step" stepParams (.error e) trace) ∨
    ∃ v tail, trace = .called "step" stepParams (.ok v) :: tail ∧ NoStep tail ∧ Watched out tail ∧
      (anchored = false → out = .ok none ∧ tail = [])

theorem step_emits (anchored : Bool) :
    Emits (do
        let _ ← r.callBeforeDeadline "step" stepParams
        if anchored then r.pollAnchorObserve else pure none) (SteppedThen anchored) := by
  refine (callBeforeDeadline_emits r "step" stepParams).bind (Q := fun _ out new =>
    NoStep new ∧ Watched out new ∧ (anchored = false → out = .ok none ∧ new = [])) ?_ ?_ ?_
  · intro v
    cases anchored with
    | true => exact (pollAnchorObserve_emits r).mono fun out new h => ⟨h.2, h.1, nofun⟩
    | false => exact emits_pure ⟨by simp [NoStep], .inl ⟨by simp [Silent], nofun⟩, fun _ => ⟨rfl, rfl⟩⟩
  · intro v before out new hcall ⟨hstep, hwatched, hanchored⟩
    rw [hcall.ok]
    exact .inr ⟨v, new, rfl, hstep, hwatched, hanchored⟩
  · intro e before hcall
    exact .inl ⟨e, rfl, hcall⟩

theorem SteppedThen.replayed {anchored : Bool} {input : ControllerRow} {v : Json} {out : Except String (Option τ)}
    {trace : List LinkStep} (h : SteppedThen anchored out trace) :
    Replayed anchored [(stepParams, inputParams input)] out
      (.called "set_input" (inputParams input) (.ok v) :: trace) := by
  have hset : Silent [.called "set_input" (inputParams input) (.ok v)] := by simp [Silent, LinkStep.IsObserved]
  have hunder : ∀ i trace, stepsUnder i (.called "set_input" (inputParams input) (.ok v) :: trace) =
      stepsUnder (inputParams input) trace := by
    intro i trace
    rw [stepsUnder, if_neg (by decide), if_pos ⟨rfl, rfl⟩]
  rcases h with ⟨e, rfl, hcall⟩ | ⟨w, tail, rfl, hstep, hwatched, hanchored⟩
  · refine Replayed.of_failed (hset.append hcall.silent) ?_ ?_
    · exact fun h => hcall.fault (NoFault.of_append (a := [_]) h).2
    · intro i
      rw [hunder]
      rcases hcall with ⟨v, h, -⟩ | ⟨e, -, rfl | ⟨e', rfl⟩⟩
      · cases h
      · exact List.nil_prefix
      · exact List.prefix_rfl
  · have hsteps : ∀ i, stepsUnder i (.called "set_input" (inputParams input) (.ok v) ::
        .called "step" stepParams (.ok w) :: tail) = [(stepParams, inputParams input)] := by
      intro i
      rw [hunder, stepsUnder, if_pos rfl, hstep.stepsUnder]
    refine ⟨fun i => hsteps i ▸ List.prefix_rfl, fun _ => hsteps, ?_, ?_⟩
    · exact hwatched.before (show Silent [_, _] by simp [Silent, LinkStep.IsObserved])
    · intro h
      obtain ⟨hout, rfl⟩ := hanchored h
      exact ⟨by simp [Silent, LinkStep.IsObserved], fun _ => hout⟩

theorem advanceFrame_emits (anchored : Bool) (input : ControllerRow) :
    Emits (r.advanceFrame anchored input) (Replayed anchored [(stepParams, inputParams input)]) := by
  refine (callBeforeDeadline_emits r "set_input" (inputParams input)).bind (fun _ => step_emits r anchored) ?_ ?_
  · intro v before out new hcall hstep
    rw [hcall.ok]
    exact hstep.replayed
  · intro e before hcall
    refine Replayed.of_failed hcall.silent hcall.fault fun i => ?_
    rw [(hcall.noStep (by decide)).stepsUnder]
    exact List.nil_prefix

/-! ## The whole replay -/

theorem replayed_of_stops {anchored : Bool} {frames : List MovieFrame} {ns : List ℕ} {out : Except String (Option τ)}
    {trace : List LinkStep}
    (h : Stops (fun n => Replayed anchored [(stepParams, inputParams (rowOf frames n))]) ns out trace) :
    Replayed anchored (stepsOf frames ns) out trace := by
  induction h with
  | done => exact replayed_nil anchored
  | next hframe _ ih => exact hframe.append ih
  | stop hframe hout => exact hframe.stop hout _

theorem replayRows_emits (anchored : Bool) {movie : Movie} (hmovie : validateMovieFrames movie = .ok ()) :
    Emits (r.replayRows anchored 0 movie.frames)
      (Replayed anchored (stepsOf movie.frames (List.range (advances movie)))) := by
  rw [replayRows_schedule r anchored hmovie]
  exact (Emits.untilSome (fun n => advanceFrame_emits r anchored (rowOf movie.frames n)) _).mono
    fun out new h => replayed_of_stops h

theorem replayed_of_noStep {out : Except String (Option τ)} {trace : List LinkStep} (hstep : NoStep trace)
    (hwatched : Watched out trace) : Replayed true [] out trace where
  steps := fun i => by simp [hstep.stepsUnder]
  stepped := fun _ i => hstep.stepsUnder i
  watched := hwatched
  unanchored := nofun

theorem call_then {method : String} {params : Json} {f : Json → OnLink String σ (Option τ)} (hmethod : method ≠ "step")
    (hf : ∀ v, Emits (f v) fun out new => Watched out new ∧ NoStep new) :
    Emits (r.callBeforeDeadline method params >>= f) fun out new => Watched out new ∧ NoStep new := by
  refine (callBeforeDeadline_emits r method params).bind hf ?_ ?_
  · intro v before out new hcall ⟨hwatched, hstep⟩
    exact ⟨hwatched.before hcall.silent, (hcall.noStep hmethod).append hstep⟩
  · intro e before hcall
    exact ⟨.inl ⟨hcall.silent, nofun⟩, hcall.noStep hmethod⟩

theorem armAnchor_emits (anchor : Option Predicate) :
    Emits (r.armAnchor anchor) (Replayed anchor.isSome []) := by
  cases anchor with
  | none => exact emits_pure (replayed_nil false)
  | some a =>
    refine Emits.mono (P := fun out new => Watched out new ∧ NoStep new) ?_ fun out new h => replayed_of_noStep h.2 h.1
    exact call_then r (by decide) fun _ => call_then r (by decide) fun _ => call_then r (by decide) fun _ =>
      pollAnchorObserve_emits r

/-- The frames of a body, and before them the setting of the anchor. -/
def bodySteps (movie : Movie) : List (Json × Json) := stepsOf movie.frames (List.range (advances movie))

theorem replayMovieBody_anchored_emits {movie : Movie} (hmovie : validateMovieFrames movie = .ok ())
    (anchor : Predicate) :
    Emits (r.replayMovieBody movie (some anchor)) (Replayed true (bodySteps movie)) := by
  refine (armAnchor_emits r (some anchor)).orGoOn
    ((replayRows_emits r true hmovie).orGoOn (Q := fun out new => out = .ok none ∧ new = [])
      (R := Replayed true (bodySteps movie)) (emits_pure ⟨rfl, rfl⟩) ?_ ?_) ?_ ?_
  · rintro before out new hrows ⟨rfl, rfl⟩
    rw [List.append_nil]
    exact hrows
  · exact fun out new h _ => h
  · exact fun before out new harm hrest => harm.append hrest
  · exact fun out new harm hout => harm.stop hout _

/-- What a body without an anchor leaves: all steps, and then the observation, unless there was a fault. -/
theorem replayMovieBody_emits {movie : Movie} (hmovie : validateMovieFrames movie = .ok ()) :
    Emits (r.replayMovieBody movie none) fun out new =>
      (∀ i, stepsUnder i new <+: bodySteps movie) ∧
      ((Silent new ∧ ¬ NoFault new ∧ ∃ e, out = .error e) ∨
        ∃ steps, new = steps ++ [.observed out.isOk] ∧ Silent steps ∧ out ≠ .ok none ∧
          ∀ i, stepsUnder i new = bodySteps movie) := by
  show Emits (orGoOn (r.replayRows false 0 movie.frames) (some <$> r.observeBeforeDeadline)) _
  refine (replayRows_emits r false hmovie).orGoOn ((observeBeforeDeadline_emits r).map
    (Q := fun out new => out ≠ .ok none ∧ (new = [.observed out.isOk] ∨ new = [.late] ∧ ∃ e, out = .error e)) ?_) ?_ ?_
  · intro out new h
    cases out with
    | ok v => exact ⟨nofun, h.imp id fun ⟨_, e, he⟩ => (by cases he)⟩
    | error e => exact ⟨nofun, h.imp id fun ⟨hnew, _⟩ => ⟨hnew, e, rfl⟩⟩
  · rintro before out new hrows ⟨hout, rfl | ⟨rfl, herror⟩⟩
    · have hsteps : ∀ i, stepsUnder i (before ++ [.observed out.isOk]) = bodySteps movie := by
        intro i
        rw [NoStep.stepsUnder_append (by simp [NoStep, LinkStep.IsStep]), hrows.stepped rfl, bodySteps]
      exact ⟨fun i => hsteps i ▸ List.prefix_rfl, .inr ⟨before, rfl, hrows.watched.silent, hout, hsteps⟩⟩
    · refine ⟨fun i => ?_, .inl ⟨hrows.watched.silent.append (by simp [Silent, LinkStep.IsObserved]), ?_, herror⟩⟩
      · rw [NoStep.stepsUnder_append (by simp [NoStep, LinkStep.IsStep])]
        exact hrows.steps i
      · intro hfault
        exact hfault.of_append.2 .late (List.mem_singleton_self _) trivial
  · intro out new hrows hout
    obtain ⟨hsilent, hnofault⟩ := hrows.unanchored rfl
    refine ⟨hrows.steps, .inl ⟨hsilent, fun hfault => hout (hnofault hfault), ?_⟩⟩
    rcases hrows.watched with ⟨-, hnone⟩ | ⟨before, answer, -, -, -, rfl⟩
    · cases out with
      | error e => exact ⟨e, rfl⟩
      | ok v =>
        cases v with
        | none => exact absurd rfl hout
        | some v => exact absurd rfl (hnone v)
    · exact absurd trivial (hsilent (.observed out.isOk) (by simp))

end Emucap.Analysis
