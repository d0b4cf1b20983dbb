import Emucap.Lib.Settled
import Emucap.Live.Tools.Cancellable

/-!
# When the quarantine is cleared

Over every sequence of calls through one `ControlledTool`, whatever the link answers, `finish` clears the quarantine
only where it is safe (`cleanup_verified`). `Books` ties the flags of the tool to the trace.
-/

namespace Emucap.Live.Tools

open Emucap.Lib

/-! ## What a trace says -/

def Exchange.Moves (e : Exchange) : Prop := e.sent = true ∧ (e.method ∈ advanceMethods ∨ e.method = "pause")

def Exchange.Frozen (runtime : String) (e : Exchange) : Prop :=
  ∃ reply, e.result = .ok reply ∧ isFrozen reply ∧ e.launchId = some runtime

def Exchange.Presses (e : Exchange) : Prop :=
  e.sent = true ∧ e.method = "set_input" ∧ ¬ isValidate e.params ∧ ¬ isRelease e.params

/-- The inputs were let go, and the producer has said so. -/
def Exchange.Releases (e : Exchange) : Prop :=
  e.method = "set_input" ∧ isRelease e.params ∧ ∃ reply, e.result = .ok reply

/-- The flags of the tool say what the trace says. -/
structure Books (t : ControlledTool) (trace : List Exchange) : Prop where
  idle : t.effectsStarted = false → ∀ e ∈ trace, ¬ e.Moves
  stopped : t.stopVerified = true → SettledBy Exchange.Moves (Exchange.Frozen t.runtime) trace
  released : t.inputIssued = false → SettledBy Exchange.Presses Exchange.Releases trace
  ports : ∀ e ∈ trace, e.Presses → portOf e.params ∈ t.inputPorts

section books
variable {t : ControlledTool} {trace : List Exchange} {e : Exchange}

theorem Books.concat (h : Books t trace) (hmoves : ¬ e.Moves) (hpresses : ¬ e.Presses) : Books t (trace ++ [e]) := by
  refine ⟨fun hidle e' he' => ?_, fun hstop => (h.stopped hstop).concat hmoves,
    fun hinput => (h.released hinput).concat hpresses, fun e' he' hpress => ?_⟩
  · rcases List.mem_append.mp he' with he' | he'
    · exact h.idle hidle e' he'
    · rw [List.mem_singleton.mp he']
      exact hmoves
  · rcases List.mem_append.mp he' with he' | he'
    · exact h.ports e' he' hpress
    · rw [List.mem_singleton.mp he'] at hpress
      exact absurd hpress hpresses

theorem Books.unsettle (h : Books t trace) {es : List Exchange} (hpresses : ∀ e ∈ es, ¬ e.Presses)
    {t' : ControlledTool} (heffects : t'.effectsStarted = true) (hstop : t'.stopVerified = false)
    (hinput : t'.inputIssued = t.inputIssued) (hports : t'.inputPorts = t.inputPorts) (hes : es.length ≤ 1) :
    Books t' (trace ++ es) := by
  refine ⟨fun hidle => ?_, fun hverified => ?_, fun hissued => ?_, fun e' he' hpress => ?_⟩
  · rw [heffects] at hidle
    cases hidle
  · rw [hstop] at hverified
    cases hverified
  · rw [hinput] at hissued
    rcases es with _ | ⟨e, es⟩
    · rw [List.append_nil]
      exact h.released hissued
    · obtain rfl : es = [] := List.length_eq_zero_iff.mp (by rw [List.length_cons] at hes; omega)
      exact (h.released hissued).concat (hpresses e List.mem_cons_self)
  · rw [hports]
    rcases List.mem_append.mp he' with he' | he'
    · exact h.ports e' he' hpress
    · exact absurd hpress (hpresses e' he')

theorem Books.settle (h : Books t trace) (hstopped : SettledBy Exchange.Moves (Exchange.Frozen t.runtime) trace)
    (advances : List Json) : Books { t with stopVerified := true, advances := advances } trace :=
  ⟨h.idle, fun _ => hstopped, h.released, h.ports⟩

end books

/-! ## The link below -/

/-- Nothing was asked. -/
structure Silent (w w' : World) : Prop where
  tool : w'.tool = w.tool
  trace : w'.inner.trace = w.inner.trace
  marks : w'.inner.marks = w.inner.marks

structure Asked (method : String) (params : Json) (w w' : World) (e : Exchange) : Prop where
  tool : w'.tool = w.tool
  trace : w'.inner.trace = w.inner.trace ++ [e]
  marks : w'.inner.marks = w.inner.marks
  launchId : w'.inner.launchId = e.launchId
  method : e.method = method
  params : e.params = params
  reserved : e.result = .error .cancelled → e.sent = false

section link
variable {α : Type} {w : World} {method : String} {params : Json} {Q : Json → World → Prop}
  {E : LinkError → World → Prop}

theorem wp_onInner {x : OnInner α} {Q : α → World → Prop} :
    wp (onInner x) Q E w ↔
      wp x (fun a s => Q a { w with inner := s }) (fun e s => E e { w with inner := s }) w.inner := by
  unfold wp onInner
  cases x w.inner with
  | ok a s => rfl
  | error e s => rfl

theorem wp_look_inner {s : Inner} {Q : Moment → Inner → Prop} {E : LinkError → Inner → Prop} :
    wp look Q E s ↔ Q (s.moments 0) { s with moments := fun i => s.moments (i + 1) } := Iff.rfl

theorem wp_look {Q : Moment → World → Prop} (hQ : ∀ m w', Silent w w' → w'.inner.launchId = w.inner.launchId → Q m w') :
    wp (onInner look) Q E w := by
  rw [wp_onInner]
  exact hQ _ _ ⟨rfl, rfl, rfl⟩ rfl

theorem wp_callWithProgress {control : ProgressCallControl}
    (hQ : ∀ reply w' e, Asked method params w w' e → e.result = .ok reply → Q reply w')
    (hE : ∀ error w' e, Asked method params w w' e → e.result = .error error → E error w') :
    wp (onInner (callWithProgress method params control)) Q E w := by
  rw [wp_onInner]
  unfold wp callWithProgress
  rcases hanswer : (w.inner.answers 0).result with error | reply
  · simp only [hanswer]
    refine hE error _ _ ⟨rfl, rfl, rfl, rfl, rfl, rfl, ?_⟩ rfl
    rw [← hanswer]
    exact (w.inner.answers 0).reserved
  · simp only [hanswer]
    refine hQ reply _ _ ⟨rfl, rfl, rfl, rfl, rfl, rfl, nofun⟩ rfl

theorem wp_checkGeneration {Q : Unit → World → Prop} (hQ : generationCurrent w → Q () w)
    (hE : ∀ error, error ≠ .cancelled → E error w) : wp checkGeneration Q E w := by
  unfold checkGeneration
  rw [wp_bind, wp_get]
  split_ifs with hcurrent
  · exact hQ hcurrent
  · exact hE _ nofun

theorem Silent.trans {w' w'' : World} (h : Silent w w') (h' : Silent w' w'') : Silent w w'' :=
  ⟨h'.tool.trans h.tool, h'.trace.trans h.trace, h'.marks.trans h.marks⟩

theorem Silent.asked {w' w'' : World} {e : Exchange} (h : Silent w w') (h' : Asked method params w' w'' e) :
    Asked method params w w'' e :=
  ⟨h'.tool.trans h.tool, by rw [h'.trace, h.trace], h'.marks.trans h.marks, h'.launchId, h'.method, h'.params,
    h'.reserved⟩

theorem wp_remainingParentBudget {Q : ℕ → World → Prop} (hQ : ∀ n w', Silent w w' → Q n w')
    (hE : ∀ error w', Silent w w' → error ≠ .cancelled → E error w') : wp remainingParentBudget Q E w := by
  unfold remainingParentBudget
  rw [wp_bind, wp_get, wp_bind]
  refine wp_look fun m w' hw' _ => ?_
  cases m.cancelledAt with
  | none => exact hQ _ w' hw'
  | some cancelled =>
    simp only
    split_ifs
    · rw [wp_bind, wp_onInner]
      exact hE _ _ (hw'.trans ⟨rfl, rfl, rfl⟩) nofun
    · exact hQ _ w' hw'

def owned (t : ControlledTool) (params : Json) : Json := params.set "_temporal_owner" t.parent.toValue

theorem wp_parentRequest
    (hQ : ∀ reply w' e, Asked method (owned w.tool params) w w' e → e.result = .ok reply → Q reply w')
    (hsilent : ∀ error w', Silent w w' → error ≠ .cancelled → E error w')
    (hE : ∀ error w' e, Asked method (owned w.tool params) w w' e → e.result = .error error → E error w') :
    wp (parentRequest method params) Q E w := by
  unfold parentRequest
  rw [wp_bind]
  refine wp_checkGeneration (fun _ => ?_) fun error herror => hsilent error w ⟨rfl, rfl, rfl⟩ herror
  rw [wp_bind]
  refine wp_remainingParentBudget (fun n w₁ hw₁ => ?_) hsilent
  rw [wp_bind, wp_get, wp_bind]
  refine wp_look fun m w₂ hw₂ _ => ?_
  rw [show w₁.tool = w.tool from hw₁.tool]
  have hw := hw₁.trans hw₂
  exact wp_callWithProgress (fun reply w' e hw' => hQ reply w' e (hw.asked hw'))
    fun error w' e hw' => hE error w' e (hw.asked hw')

end link

/-! ## Calls -/

structure Kept (w w' : World) : Prop where
  books : Books w'.tool w'.inner.trace
  runtime : w'.tool.runtime = w.tool.runtime
  parent : w'.tool.parent = w.tool.parent
  marks : w'.inner.marks = w.inner.marks

/-- The flags are as they were, and nothing was sent. -/
structure Restored (w w' : World) : Prop where
  effectsStarted : w'.tool.effectsStarted = w.tool.effectsStarted
  stopVerified : w'.tool.stopVerified = w.tool.stopVerified
  inputIssued : w'.tool.inputIssued = w.tool.inputIssued
  inputPorts : w'.tool.inputPorts = w.tool.inputPorts
  advances : w'.tool.advances = w.tool.advances
  unsent : ∃ rest, w'.inner.trace = w.inner.trace ++ rest ∧ ∀ e ∈ rest, e.sent = false

def Fails (w : World) (error : LinkError) (w' : World) : Prop := Kept w w' ∧ (error = .cancelled → Restored w w')

section calls
variable {w : World} {method : String} {params : Json}

theorem Exchange.not_moves_of_unsent {e : Exchange} (h : e.sent = false) : ¬ e.Moves := fun hmoves => by
  rw [hmoves.1] at h
  cases h

theorem Exchange.not_presses_of_unsent {e : Exchange} (h : e.sent = false) : ¬ e.Presses := fun hpresses => by
  rw [hpresses.1] at h
  cases h

theorem Kept.of_silent {w' : World} (h : Books w.tool w.inner.trace) (hw' : Silent w w') : Kept w w' := by
  obtain ⟨htool, htrace, hmarks⟩ := hw'
  exact ⟨by rw [htool, htrace]; exact h, by rw [htool], by rw [htool], hmarks⟩

theorem Fails.of_silent {w' : World} {error : LinkError} (h : Books w.tool w.inner.trace) (hw' : Silent w w')
    (herror : error ≠ .cancelled) : Fails w error w' :=
  ⟨.of_silent h hw', fun hcancelled => absurd hcancelled herror⟩

theorem Fails.of_unsent {w' : World} {e : Exchange} {error : LinkError} (h : Books w.tool w.inner.trace)
    (hunsent : e.sent = false) (tried : Bool) (htool : w'.tool = { w.tool with advanceDispatched := tried })
    (htrace : w'.inner.trace = w.inner.trace ++ [e]) (hmarks : w'.inner.marks = w.inner.marks) : Fails w error w' := by
  have hconcat := h.concat (Exchange.not_moves_of_unsent hunsent) (Exchange.not_presses_of_unsent hunsent)
  have hbooks : Books w'.tool w'.inner.trace := by
    rw [htool, htrace]
    exact ⟨hconcat.idle, hconcat.stopped, hconcat.released, hconcat.ports⟩
  refine ⟨⟨hbooks, by rw [htool], by rw [htool], hmarks⟩, fun _ => ?_⟩
  refine ⟨by rw [htool], by rw [htool], by rw [htool], by rw [htool], by rw [htool], [e], htrace, ?_⟩
  intro e' he'
  rw [List.mem_singleton.mp he']
  exact hunsent

theorem wp_isCancelled {Q : Bool → World → Prop} {E : LinkError → World → Prop}
    (hQ : ∀ b w', Silent w w' → w'.inner.launchId = w.inner.launchId → Q b w') : wp isCancelled Q E w := by
  unfold isCancelled
  rw [wp_bind]
  exact wp_look fun m w' hw' hlaunch => hQ _ w' hw' hlaunch

theorem wp_modifyTool {f : ControlledTool → ControlledTool} {Q : Unit → World → Prop} {E : LinkError → World → Prop} :
    wp (modifyTool f) Q E w ↔ Q () { w with tool := f w.tool } := Iff.rfl

theorem wp_ofExcept {σ α : Type} {s : σ} {r : Except LinkError α} {Q : α → σ → Prop} {E : LinkError → σ → Prop}
    (hQ : ∀ a, r = .ok a → Q a s) (hE : ∀ error, r = .error error → E error s) : wp (ofExcept r) Q E s := by
  cases r with
  | ok a => exact hQ a rfl
  | error e => exact hE e rfl

theorem wp_modifyToolIf {c : Prop} [Decidable c] {f : ControlledTool → ControlledTool} {Q : Unit → World → Prop}
    {E : LinkError → World → Prop} :
    wp (modifyToolIf c f) Q E w ↔ Q () { w with tool := if c then f w.tool else w.tool } := Iff.rfl

def paused (method : String) (t : ControlledTool) : ControlledTool :=
  if method = "pause" then { t with effectsStarted := true, stopVerified := false } else t

theorem Books.pause {t : ControlledTool} {trace es : List Exchange} (h : Books t trace) (hmethod : method ∉ advanceMethods)
    (hinput : method ≠ "set_input") (hes : ∀ e ∈ es, e.method = method) (hone : es.length ≤ 1) :
    Books (paused method t) (trace ++ es) := by
  have hpresses : ∀ e ∈ es, ¬ e.Presses := fun e he hpress => hinput ((hes e he).symm.trans hpress.2.1)
  unfold paused
  split_ifs with hpause
  · exact h.unsettle hpresses rfl rfl rfl rfl hone
  · rcases es with _ | ⟨e, es⟩
    · rw [List.append_nil]
      exact h
    · obtain rfl : es = [] := List.length_eq_zero_iff.mp (by rw [List.length_cons] at hone; omega)
      refine h.concat ?_ (hpresses e List.mem_cons_self)
      rintro ⟨-, hmoves⟩
      rw [hes e List.mem_cons_self] at hmoves
      exact hmoves.elim hmethod hpause

theorem paused_fixed (method : String) (t : ControlledTool) :
    (paused method t).runtime = t.runtime ∧ (paused method t).parent = t.parent ∧
      { paused method t with effectsStarted := t.effectsStarted, stopVerified := t.stopVerified } = t := by
  unfold paused
  split_ifs <;> exact ⟨rfl, rfl, rfl⟩

theorem wp_passThrough (h : Books w.tool w.inner.trace) (hmethod : method ∉ advanceMethods)
    (hinput : method ≠ "set_input") :
    wp (passThrough method params)
      (fun reply w' => Kept w w' ∧ (generationCurrent w' → isFrozen reply →
        SettledBy Exchange.Moves (Exchange.Frozen w'.tool.runtime) w'.inner.trace))
      (Fails w) w := by
  obtain ⟨hruntime, hparent, hrestore⟩ := paused_fixed method w.tool
  unfold passThrough
  rw [wp_bind, wp_get, wp_bind, wp_modifyToolIf]
  rw [wp_bind]
  refine wp_isCancelled fun _ w₁ hw₁ _ => ?_
  rw [wp_bind, wp_attempt]
  have htool : w₁.tool = paused method w.tool := hw₁.tool
  refine wp_parentRequest (fun reply w₂ e hw₂ hreply => ?_) (fun error w₂ hw₂ herror => ?_)
    (fun error w₂ e hw₂ herror => ?_)
  · have htool₂ : w₂.tool = paused method w.tool := hw₂.tool.trans htool
    have htrace₂ : w₂.inner.trace = w.inner.trace ++ [e] := hw₂.trace.trans (by rw [hw₁.trace])
    have hmarks₂ : w₂.inner.marks = w.inner.marks := hw₂.marks.trans hw₁.marks
    have hbooks : Books w₂.tool w₂.inner.trace := by
      rw [htool₂, htrace₂]
      exact h.pause hmethod hinput (fun e' he' => by rw [List.mem_singleton.mp he', hw₂.method]) le_rfl
    have hsettled : generationCurrent w₂ → isFrozen reply →
        SettledBy Exchange.Moves (Exchange.Frozen w₂.tool.runtime) w₂.inner.trace := by
      intro hcurrent hfrozen
      rw [htrace₂]
      exact settledBy_concat ⟨reply, hreply, hfrozen, hw₂.launchId.symm.trans hcurrent⟩
    have hkept : Kept w w₂ := ⟨hbooks, by rw [htool₂, hruntime], by rw [htool₂, hparent], hmarks₂⟩
    rw [wp_bind, wp_modifyToolIf, if_neg nofun, wp_bind, wp_get, wp_bind, wp_modifyToolIf]
    split_ifs with hstop
    · obtain ⟨-, hcurrent, reply', hreply', hfrozen⟩ := hstop
      cases hreply'
      have hsettled' := hsettled hcurrent hfrozen
      exact ⟨⟨hbooks.settle hsettled' w₂.tool.advances, hkept.runtime, hkept.parent, hkept.marks⟩,
        fun _ _ => hsettled'⟩
    · exact ⟨hkept, hsettled⟩
  · have hsilent := hw₁.trans hw₂
    have htool₂ : w₂.tool = paused method w.tool := hsilent.tool
    have hbooks : Books w₂.tool w₂.inner.trace := by
      have hnone : Books (paused method w.tool) (w.inner.trace ++ []) :=
        h.pause hmethod hinput (List.forall_mem_nil _) (Nat.zero_le _)
      rw [List.append_nil] at hnone
      rw [htool₂, hsilent.trace]
      exact hnone
    rw [wp_bind, wp_modifyToolIf, if_neg (by simpa using herror), wp_bind, wp_get, wp_bind, wp_modifyToolIf,
      if_neg (by simp [Except.toOption])]
    exact ⟨⟨hbooks, by rw [htool₂, hruntime], by rw [htool₂, hparent], hsilent.marks⟩,
      fun hcancelled => absurd hcancelled herror⟩
  · have htool₂ : w₂.tool = paused method w.tool := hw₂.tool.trans htool
    have htrace₂ : w₂.inner.trace = w.inner.trace ++ [e] := hw₂.trace.trans (by rw [hw₁.trace])
    have hmarks₂ : w₂.inner.marks = w.inner.marks := hw₂.marks.trans hw₁.marks
    rw [wp_bind, wp_modifyToolIf, wp_bind, wp_get, wp_bind, wp_modifyToolIf, if_neg (by simp [Except.toOption])]
    by_cases hcancelled : error = .cancelled
    · subst hcancelled
      rw [if_pos rfl]
      refine .of_unsent h (hw₂.reserved herror) w.tool.advanceDispatched ?_ htrace₂ hmarks₂
      show ({ w₂.tool with effectsStarted := w.tool.effectsStarted, stopVerified := w.tool.stopVerified } :
        ControlledTool) = w.tool
      rw [htool₂]
      exact hrestore
    · rw [if_neg (by simpa using hcancelled)]
      have hbooks : Books w₂.tool w₂.inner.trace := by
        rw [htool₂, htrace₂]
        exact h.pause hmethod hinput (fun e' he' => by rw [List.mem_singleton.mp he', hw₂.method]) le_rfl
      exact ⟨⟨hbooks, by rw [htool₂, hruntime], by rw [htool₂, hparent], hmarks₂⟩,
        fun hc => absurd hc hcancelled⟩

theorem owned_input (t : ControlledTool) (params : Json) :
    (isValidate (owned t params) ↔ isValidate params) ∧ (isRelease (owned t params) ↔ isRelease params) ∧
      portOf (owned t params) = portOf params := by
  have hget : ∀ k ≠ "_temporal_owner", (owned t params).get k = params.get k :=
    fun k hk => Json.get_set_ne hk _ _
  refine ⟨?_, ?_, ?_⟩
  · simp only [isValidate, index, hget "_input_scope" (by decide)]
  · simp only [isRelease, index, hget "_input_scope" (by decide), hget "buttons" (by decide),
      hget "axes" (by decide)]
  · simp only [portOf, hget "port" (by decide)]

theorem Exchange.not_moves_of_input {e : Exchange} (h : e.method = "set_input") : ¬ e.Moves := by
  rintro ⟨-, hmoves⟩
  rw [h] at hmoves
  exact absurd hmoves (by decide)

def issuing (params : Json) (t : ControlledTool) : ControlledTool :=
  { t with
    inputIssued := if isRelease params then t.inputIssued else true
    effectsStarted := if isRelease params then t.effectsStarted else true
    inputPorts := insert (portOf params) t.inputPorts }

theorem Books.issue {t : ControlledTool} {trace es : List Exchange} (h : Books t trace)
    (hheld : isRelease params → t.inputIssued = true)
    (hes : ∀ e ∈ es, e.method = "set_input" ∧ e.params = owned t params) (hone : es.length ≤ 1) :
    Books (issuing params t) (trace ++ es) := by
  have hissued : (issuing params t).inputIssued = true := by
    unfold issuing
    split_ifs with hrelease
    · exact hheld hrelease
    · rfl
  have hmoves : ∀ e ∈ es, ¬ e.Moves := fun e he => Exchange.not_moves_of_input (hes e he).1
  refine ⟨fun hidle e he => ?_, fun hstop => ?_, fun hfree => ?_, fun e he hpress => ?_⟩
  · rcases List.mem_append.mp he with he | he
    · refine h.idle ?_ e he
      unfold issuing at hidle
      split_ifs at hidle with hrelease
      exact hidle
    · exact hmoves e he
  · have hold : SettledBy Exchange.Moves (Exchange.Frozen t.runtime) trace := h.stopped hstop
    rcases es with _ | ⟨e, es⟩
    · rw [List.append_nil]
      exact hold
    · obtain rfl : es = [] := List.length_eq_zero_iff.mp (by rw [List.length_cons] at hone; omega)
      exact hold.concat (hmoves e List.mem_cons_self)
  · rw [hissued] at hfree
    cases hfree
  · show portOf e.params ∈ insert (portOf params) t.inputPorts
    rcases List.mem_append.mp he with he | he
    · exact Finset.mem_insert_of_mem (h.ports e he hpress)
    · rw [(hes e he).2, (owned_input t params).2.2]
      exact Finset.mem_insert_self _ _

theorem wp_sendInput {v : World} (h : Books w.tool w.inner.trace) (hheld : isRelease params → w.tool.inputIssued = true)
    (htool : ({ v.tool with inputPorts := insert (portOf params) v.tool.inputPorts } : ControlledTool) =
      issuing params w.tool)
    (htrace : v.inner.trace = w.inner.trace) (hmarks : v.inner.marks = w.inner.marks) :
    wp (sendInput w.tool params) (fun _ => Kept w) (Fails w) v := by
  have howned : owned (issuing params w.tool) params = owned w.tool params := rfl
  unfold sendInput
  rw [wp_bind, wp_modifyTool, htool, wp_bind, wp_attempt]
  refine wp_parentRequest (fun reply w₂ e hw₂ hreply => ?_) (fun error w₂ hw₂ herror => ?_)
    (fun error w₂ e hw₂ herror => ?_)
  · have htrace₂ : w₂.inner.trace = w.inner.trace ++ [e] := hw₂.trace.trans (by rw [htrace])
    have hbooks : Books w₂.tool w₂.inner.trace := by
      rw [hw₂.tool, htrace₂]
      exact h.issue hheld (fun e' he' => by rw [List.mem_singleton.mp he']; exact ⟨hw₂.method, hw₂.params⟩) le_rfl
    have hruntime : w₂.tool.runtime = w.tool.runtime := by
      rw [hw₂.tool]
      rfl
    have hparent : w₂.tool.parent = w.tool.parent := by
      rw [hw₂.tool]
      rfl
    have hmarks₂ : w₂.inner.marks = w.inner.marks := hw₂.marks.trans hmarks
    rw [wp_bind, wp_modifyToolIf, if_neg nofun, wp_bind, wp_modifyToolIf]
    split_ifs with hrelease
    · refine ⟨⟨hbooks.idle, hbooks.stopped, fun _ => ?_, hbooks.ports⟩, hruntime, hparent, hmarks₂⟩
      rw [htrace₂]
      refine settledBy_concat ⟨hw₂.method, ?_, reply, hreply⟩
      rw [hw₂.params]
      exact (owned_input _ params).2.1.mpr hrelease.1
    · exact ⟨hbooks, hruntime, hparent, hmarks₂⟩
  · rw [wp_bind, wp_modifyToolIf, if_neg (by simpa using herror), wp_bind, wp_modifyToolIf,
      if_neg (by simp [Except.isOk, Except.toBool])]
    have hbooks : Books w₂.tool w₂.inner.trace := by
      have hnone : Books (issuing params w.tool) (w.inner.trace ++ []) :=
        h.issue hheld (List.forall_mem_nil _) (Nat.zero_le _)
      rw [List.append_nil] at hnone
      rw [hw₂.tool, hw₂.trace, htrace]
      exact hnone
    refine ⟨⟨hbooks, ?_, ?_, hw₂.marks.trans hmarks⟩, fun hcancelled => absurd hcancelled herror⟩
    · rw [hw₂.tool]
      rfl
    · rw [hw₂.tool]
      rfl
  · have htrace₂ : w₂.inner.trace = w.inner.trace ++ [e] := hw₂.trace.trans (by rw [htrace])
    have hmarks₂ : w₂.inner.marks = w.inner.marks := hw₂.marks.trans hmarks
    rw [wp_bind, wp_modifyToolIf, wp_bind, wp_modifyToolIf, if_neg (by simp [Except.isOk, Except.toBool])]
    by_cases hcancelled : error = .cancelled
    · subst hcancelled
      rw [if_pos rfl]
      refine .of_unsent h (hw₂.reserved herror) w.tool.advanceDispatched ?_ htrace₂ hmarks₂
      show ({ w₂.tool with
        inputIssued := w.tool.inputIssued
        effectsStarted := w.tool.effectsStarted
        inputPorts := w.tool.inputPorts } : ControlledTool) = w.tool
      rw [hw₂.tool]
      rfl
    · rw [if_neg (by simpa using hcancelled)]
      have hbooks : Books w₂.tool w₂.inner.trace := by
        rw [hw₂.tool, htrace₂]
        exact h.issue hheld (fun e' he' => by rw [List.mem_singleton.mp he']; exact ⟨hw₂.method, hw₂.params⟩) le_rfl
      refine ⟨⟨hbooks, ?_, ?_, hmarks₂⟩, fun hc => absurd hc hcancelled⟩
      · rw [hw₂.tool]
        rfl
      · rw [hw₂.tool]
        rfl

theorem wp_validate (h : Books w.tool w.inner.trace) (hvalidate : isValidate params) :
    wp (parentRequest "set_input" params) (fun _ => Kept w) (Fails w) w := by
  have hkept : ∀ {w' : World} {e : Exchange}, Asked "set_input" (owned w.tool params) w w' e → Kept w w' := by
    intro w' e hw'
    have hpresses : ¬ e.Presses := by
      rintro ⟨-, -, hno, -⟩
      rw [hw'.params] at hno
      exact hno ((owned_input _ params).1.mpr hvalidate)
    refine ⟨?_, by rw [hw'.tool], by rw [hw'.tool], hw'.marks⟩
    rw [hw'.tool, hw'.trace]
    exact h.concat (Exchange.not_moves_of_input hw'.method) hpresses
  refine wp_parentRequest (fun reply w' e hw' _ => hkept hw') (fun error w' hw' herror => .of_silent h hw' herror)
    (fun error w' e hw' herror => ⟨hkept hw', fun hcancelled => ?_⟩)
  subst hcancelled
  have hfails : Fails w .cancelled w' :=
    .of_unsent h (hw'.reserved herror) w.tool.advanceDispatched hw'.tool hw'.trace hw'.marks
  exact hfails.2 rfl

theorem wp_setInput (h : Books w.tool w.inner.trace) :
    wp (setInput params) (fun _ => Kept w) (Fails w) w := by
  unfold setInput
  rw [wp_bind, wp_get]
  simp only
  split_ifs with hvalidate hrelease hissued
  · exact wp_validate h hvalidate
  · exact Kept.of_silent h ⟨rfl, rfl, rfl⟩
  · refine wp_sendInput h (fun _ => by simpa using hissued) ?_ rfl rfl
    simp only [issuing, if_pos hrelease]
  · rw [wp_bind]
    refine wp_checkGeneration (fun _ => ?_) fun error herror => .of_silent h ⟨rfl, rfl, rfl⟩ herror
    rw [wp_bind]
    refine wp_isCancelled fun cancelled w₁ hw₁ _ => ?_
    split_ifs
    · refine ⟨.of_silent h hw₁, fun _ => ?_⟩
      obtain ⟨htool, htrace, -⟩ := hw₁
      exact ⟨by rw [htool], by rw [htool], by rw [htool], by rw [htool], by rw [htool], [],
        by rw [htrace, List.append_nil], List.forall_mem_nil _⟩
    · rw [wp_bind, wp_modifyTool]
      refine wp_sendInput h (fun hyes => absurd hyes hrelease) ?_ hw₁.trace hw₁.marks
      simp only [issuing, if_neg hrelease, hw₁.tool]

/-! ## Advances -/

/-- The reply of an advance, if it shows the guest frozen, is in the trace. -/
def Shows (w : World) (reply : Json) (w' : World) : Prop :=
  Kept w w' ∧ (generationCurrent w' → isFrozen reply →
    SettledBy Exchange.Moves (Exchange.Frozen w'.tool.runtime) w'.inner.trace)

theorem Silent.kept {v w' : World} (h : Silent w v) (hw' : Kept v w') : Kept w w' := by
  obtain ⟨htool, -, hmarks⟩ := h
  obtain ⟨hbooks, hruntime, hparent, hmarks'⟩ := hw'
  rw [htool] at hruntime hparent
  exact ⟨hbooks, hruntime, hparent, hmarks'.trans hmarks⟩

theorem Silent.shows {v w' : World} {reply : Json} (h : Silent w v) (hw' : Shows v reply w') : Shows w reply w' :=
  ⟨h.kept hw'.1, hw'.2⟩

theorem Silent.fails {v w' : World} {error : LinkError} (h : Silent w v) (hw' : Fails v error w') :
    Fails w error w' := by
  refine ⟨h.kept hw'.1, fun hcancelled => ?_⟩
  obtain ⟨heffects, hstop, hinput, hports, hadvances, rest, hrest, hunsent⟩ := hw'.2 hcancelled
  obtain ⟨htool, htrace, -⟩ := h
  rw [htool] at heffects hstop hinput hports hadvances
  exact ⟨heffects, hstop, hinput, hports, hadvances, rest, by rw [hrest, htrace], hunsent⟩

theorem wp_betweenPhases (h : Books w.tool w.inner.trace) (unit : String) (requested : ℕ) :
    wp (betweenPhases unit requested) (Shows w) (Fails w) w := by
  unfold betweenPhases
  rw [wp_bind]
  refine wp_mono (wp_passThrough h (by decide) (by decide)) ?_ fun _ _ hw' => hw'
  rintro status w₁ ⟨hkept, hsettled⟩
  rw [wp_bind]
  refine wp_checkGeneration (fun hcurrent => ?_) fun error herror =>
    ⟨hkept, fun hcancelled => absurd hcancelled herror⟩
  split_ifs with hfrozen
  · exact ⟨hkept, fun _ _ => hsettled hcurrent hfrozen⟩
  · exact ⟨hkept, nofun⟩

theorem wp_dispatchAdvance (h : Books w.tool w.inner.trace) (hmethod : method ∈ advanceMethods) :
    wp (dispatchAdvance method params) (Shows w) (Fails w) w := by
  unfold dispatchAdvance
  rw [wp_bind]
  refine wp_look fun m w₁ hw₁ _ => ?_
  rw [wp_bind, wp_get, wp_bind, wp_modifyTool, wp_bind, wp_attempt]
  rw [hw₁.tool]
  have hinput : method ≠ "set_input" := by
    rintro rfl
    exact absurd hmethod (by decide)
  have hbooks : ∀ {w₂ : World} {e : Exchange}, w₂.tool = { w.tool with
      advanceDispatched := true
      effectsStarted := true
      stopVerified := false } → w₂.inner.trace = w.inner.trace ++ [e] → e.method = method →
      Books w₂.tool w₂.inner.trace := by
    intro w₂ e htool htrace hname
    rw [htool, htrace]
    refine h.unsettle (fun e' he' hpress => ?_) rfl rfl rfl rfl le_rfl
    rw [List.mem_singleton.mp he'] at hpress
    exact hinput (hname.symm.trans hpress.2.1)
  refine wp_callWithProgress (fun reply w₂ e hw₂ hreply => ?_) fun error w₂ e hw₂ herror => ?_
  · have htrace₂ : w₂.inner.trace = w.inner.trace ++ [e] := hw₂.trace.trans (by rw [hw₁.trace])
    rw [wp_bind, wp_modifyToolIf, if_neg nofun]
    refine ⟨⟨hbooks hw₂.tool htrace₂ hw₂.method, by rw [hw₂.tool], by rw [hw₂.tool], hw₂.marks.trans hw₁.marks⟩, ?_⟩
    intro hcurrent hfrozen
    rw [htrace₂]
    exact settledBy_concat ⟨reply, hreply, hfrozen, hw₂.launchId.symm.trans hcurrent⟩
  · have htrace₂ : w₂.inner.trace = w.inner.trace ++ [e] := hw₂.trace.trans (by rw [hw₁.trace])
    have hmarks₂ : w₂.inner.marks = w.inner.marks := hw₂.marks.trans hw₁.marks
    rw [wp_bind, wp_modifyToolIf]
    by_cases hcancelled : error = .cancelled
    · subst hcancelled
      rw [if_pos rfl]
      refine .of_unsent h (hw₂.reserved herror) true ?_ htrace₂ hmarks₂
      show ({ w₂.tool with stopVerified := w.tool.stopVerified, effectsStarted := w.tool.effectsStarted } :
        ControlledTool) = _
      rw [hw₂.tool]
    · rw [if_neg (by simpa using hcancelled)]
      exact ⟨⟨hbooks hw₂.tool htrace₂ hw₂.method, by rw [hw₂.tool], by rw [hw₂.tool], hmarks₂⟩,
        fun hc => absurd hc hcancelled⟩

theorem wp_advance (h : Books w.tool w.inner.trace) (hmethod : method ∈ advanceMethods) :
    wp (advance method params) (fun _ => Kept w) (Fails w) w := by
  have hfails : ∀ {error : LinkError} {w' : World}, Kept w w' → error ≠ .cancelled → Fails w error w' :=
    fun hkept herror => ⟨hkept, fun hcancelled => absurd hcancelled herror⟩
  have hsame : Kept w w := .of_silent h ⟨rfl, rfl, rfl⟩
  unfold advance
  rw [wp_bind]
  refine wp_checkGeneration (fun _ => ?_) fun error herror => hfails hsame herror
  simp only
  cases (index params (advanceUnit method).1).asU64 with
  | none => exact hfails hsame nofun
  | some requested =>
    have hreply : ∀ {reply : Json} {w' : World}, Shows w reply w' → wp (do
        checkGeneration
        if ¬ advanceValid (advanceUnit method).2 requested reply then
          throw (.protocol "invalid temporal terminal boundary or progress")
        modifyTool fun t => { t with
          stopVerified := true
          advances := t.advances ++ [.obj [("count", index reply "count"), ("requested", .nat requested),
            ("status", index reply "status"), ("unit", .str (advanceUnit method).2)]] }
        return reply : Controlled Json) (fun _ => Kept w) (Fails w) w' := by
      rintro reply w' ⟨hkept, hsettled⟩
      rw [wp_bind]
      refine wp_checkGeneration (fun hcurrent => ?_) fun error herror => hfails hkept herror
      split_ifs with hvalid
      · rw [wp_bind, wp_modifyTool]
        exact ⟨hkept.books.settle (hsettled hcurrent hvalid.1) _, hkept.runtime, hkept.parent, hkept.marks⟩
      · exact hfails hkept nofun
    rw [wp_bind]
    refine wp_isCancelled fun cancelled w₁ hw₁ _ => ?_
    have hbooks₁ : Books w₁.tool w₁.inner.trace := (Kept.of_silent h hw₁).books
    split_ifs
    · rw [wp_bind]
      exact wp_mono (wp_betweenPhases hbooks₁ _ _) (fun _ _ hw' => hreply (hw₁.shows hw')) fun _ _ => hw₁.fails
    · rw [wp_bind]
      exact wp_mono (wp_dispatchAdvance hbooks₁ hmethod) (fun _ _ hw' => hreply (hw₁.shows hw')) fun _ _ => hw₁.fails

theorem wp_call (h : Books w.tool w.inner.trace) (method : String) (params : Json) :
    wp (call method params) (fun _ => Kept w) (Fails w) w := by
  unfold call
  split_ifs with hadvance hinput
  · exact wp_advance h hadvance
  · exact wp_setInput h
  · exact wp_mono (wp_passThrough h hadvance hinput) (fun _ _ hw' => hw'.1) fun _ _ hw' => hw'

/-! ## The end of the operation -/

/-- The producer has released the parent: the request and its reply. -/
structure ProducerReleased (t : ControlledTool) (e : Exchange) : Prop where
  method : e.method = "finish_temporal_operation"
  reply : ∃ reply, e.result = .ok reply ∧ e.launchId = some t.runtime ∧ releaseVerified t reply

theorem wp_finishProducer :
    wp finishProducer
      (fun _ w' => ∃ e, w'.inner.trace = w.inner.trace ++ [e] ∧ w'.tool = w.tool ∧
        w'.inner.marks = w.inner.marks ∧ ProducerReleased w.tool e)
      (fun _ w' => w'.tool = w.tool ∧ w'.inner.marks = w.inner.marks) w := by
  unfold finishProducer
  rw [wp_bind]
  refine wp_checkGeneration (fun _ => ?_) fun _ _ => ⟨rfl, rfl⟩
  rw [wp_bind, wp_get, wp_bind]
  refine wp_parentRequest (fun reply w' e hw' hreply => ?_) (fun error w' hw' _ => ⟨hw'.tool, hw'.marks⟩)
    fun error w' e hw' _ => ⟨hw'.tool, hw'.marks⟩
  rw [wp_bind]
  refine wp_checkGeneration (fun hcurrent => ?_) fun _ _ => ⟨hw'.tool, hw'.marks⟩
  rw [wp_bind, wp_get]
  split_ifs with hverified
  · rw [hw'.tool] at hverified
    refine ⟨e, hw'.trace, hw'.tool, hw'.marks, hw'.method, reply, hreply, ?_, hverified⟩
    rw [← hw'.launchId, ← hw'.tool]
    exact hcurrent
  · exact ⟨hw'.tool, hw'.marks⟩

theorem finishWithCleanup_eq_ok {α : Type} {outcome : Except LinkError α} {cleanup : Except LinkError Unit}
    {combine : Option LinkError → LinkError → LinkError} {a : α}
    (h : finishWithCleanup outcome cleanup combine = .ok a) : outcome = .ok a ∧ cleanup = .ok () := by
  cases outcome with
  | ok value =>
    cases cleanup with
    | ok u =>
      cases h
      exact ⟨rfl, rfl⟩
    | error e => cases h
  | error primary =>
    cases cleanup with
    | ok u => cases h
    | error e => cases h

theorem finishOutcome_eq_ok {display : LinkError → String} {outcome : Except LinkError ToolOutput}
    {producer answer : Except LinkError Unit} {verified : Bool} {output : ToolOutput}
    (h : finishOutcome display outcome producer answer verified = .ok output) : verified = true := by
  obtain ⟨-, hcleanup⟩ := finishWithCleanup_eq_ok h
  cases hp : finishWithCleanup producer answer (combineTemporalCleanupError display) with
  | ok u =>
    rw [hp] at hcleanup
    by_contra hno
    simp only [Except.bind, if_neg hno] at hcleanup
    cases hcleanup
  | error e =>
    rw [hp] at hcleanup
    cases hcleanup

/-- How the operation ends: it is marked once, as verified only where the flags and the producer allow it. -/
structure Finished (w w' : World) (verified : Bool) : Prop where
  marks : w'.inner.marks = w.inner.marks ++ [verified]
  released : verified = true → (w.tool.effectsStarted = false ∨ w.tool.stopVerified = true) ∧
    w.tool.inputIssued = false ∧ ∃ e, w'.inner.trace = w.inner.trace ++ [e] ∧ ProducerReleased w.tool e

theorem wp_mark {v : World} {producer : Except LinkError Unit} {Q : Except LinkError Unit → World → Prop}
    {E : LinkError → World → Prop} (hmarks : v.inner.marks = w.inner.marks)
    (hreleased : producer = .ok () → ∃ e, v.inner.trace = w.inner.trace ++ [e] ∧ ProducerReleased w.tool e)
    (hQ : ∀ answer w', Finished w w' (w.tool.verified producer) → Q answer w') :
    wp (onInner (finishTemporalControl (w.tool.verified producer))) Q E v := by
  rw [wp_onInner]
  refine hQ _ _ ⟨by rw [← hmarks], fun hverified => ?_⟩
  simp only [ControlledTool.verified, Bool.and_eq_true, Bool.or_eq_true, Bool.not_eq_true'] at hverified
  obtain ⟨⟨hstop, hinput⟩, hok⟩ := hverified
  refine ⟨hstop, hinput, hreleased ?_⟩
  cases producer with
  | ok u => rfl
  | error e => cases hok

theorem wp_finish (display : LinkError → String) (outcome : Except LinkError ToolOutput) :
    wp (finish display outcome) (fun _ w' => Finished w w' true) (fun _ w' => ∃ verified, Finished w w' verified) w := by
  have hend : ∀ {producer answer : Except LinkError Unit} {w' : World}, Finished w w' (w.tool.verified producer) →
      wp (do
        let result ← ofExcept (finishOutcome display outcome producer answer (w.tool.verified producer))
        return attachProgress (← get).tool.advances result : Controlled ToolOutput)
        (fun _ w' => Finished w w' true) (fun _ w' => ∃ verified, Finished w w' verified) w' := by
    intro producer answer w' hfinished
    rw [wp_bind]
    refine wp_ofExcept (fun output houtput => ?_) fun error _ => ⟨_, hfinished⟩
    rw [finishOutcome_eq_ok houtput] at hfinished
    exact hfinished
  unfold finish
  rw [wp_bind, wp_attempt]
  refine wp_mono wp_finishProducer ?_ ?_
  · rintro - w₁ ⟨e, htrace, htool, hmarks, hreleased⟩
    rw [wp_bind, wp_get, wp_bind, htool]
    exact wp_mark hmarks (fun _ => ⟨e, htrace, hreleased⟩) fun answer w' => hend
  · rintro error w₁ ⟨htool, hmarks⟩
    rw [wp_bind, wp_get, wp_bind, htool]
    exact wp_mark hmarks nofun fun answer w' => hend

end calls

/-! ## Runs -/

def runCalls (w : World) (calls : List (String × Json)) : World :=
  calls.foldl (fun w c => after (call c.1 c.2) w) w

theorem kept_trans {w w' w'' : World} (h : Kept w w') (h' : Kept w' w'') : Kept w w'' :=
  ⟨h'.books, h'.runtime.trans h.runtime, h'.parent.trans h.parent, h'.marks.trans h.marks⟩

theorem runCalls_kept (calls : List (String × Json)) :
    ∀ {w : World}, Books w.tool w.inner.trace → Kept w (runCalls w calls) := by
  induction calls with
  | nil =>
    intro w h
    exact .of_silent h ⟨rfl, rfl, rfl⟩
  | cons c calls ih =>
    intro w h
    have hstep : Kept w (after (call c.1 c.2) w) :=
      after_of_wp (wp_mono (wp_call h c.1 c.2) (fun _ _ hw' => hw') fun _ _ hw' => hw'.1)
    exact kept_trans hstep (ih hstep.books)

structure Admitted (t : ControlledTool) (trace : List Exchange) : Prop where
  effectsStarted : t.effectsStarted = false
  stopVerified : t.stopVerified = false
  inputIssued : t.inputIssued = false
  asked : ∀ e ∈ trace, e.method = "begin_temporal_operation"

theorem Admitted.books {t : ControlledTool} {trace : List Exchange} (h : Admitted t trace) : Books t trace := by
  have hmoves : ∀ e ∈ trace, ¬ e.Moves := by
    rintro e he ⟨-, hmethod⟩
    rw [h.asked e he] at hmethod
    exact absurd hmethod (by decide)
  have hpresses : ∀ e ∈ trace, ¬ e.Presses := by
    rintro e he ⟨-, hmethod, -⟩
    rw [h.asked e he] at hmethod
    exact absurd hmethod (by decide)
  exact ⟨fun _ => hmoves, fun _ => settledBy_of_none hmoves, fun _ => settledBy_of_none hpresses,
    fun e he hpress => absurd hpress (hpresses e he)⟩

theorem wp_beginParent {parent : OperationKey} {stopHostMs : ℕ} {s : Inner} (htrace : s.trace = []) :
    wp (beginParent parent stopHostMs)
      (fun _ s' => (∀ e ∈ s'.trace, e.method = "begin_temporal_operation") ∧ s'.marks = s.marks) (fun _ _ => True) s := by
  unfold beginParent
  rw [wp_bind, wp_look_inner, wp_bind]
  unfold wp callWithProgress
  rcases hanswer : (s.answers 0).result with error | reply
  · simp only [hanswer]
  · simp only [hanswer]
    show wp _ _ _ _
    rw [wp_bind, wp_get]
    split_ifs
    · trivial
    · refine ⟨fun e he => ?_, rfl⟩
      simp only [htrace, List.nil_append, List.mem_singleton] at he
      rw [he]

theorem wp_admitTool {display : LinkError → String} {capability : Option CancellationCapability}
    {method owner : String} {begun : Except LinkError Unit} {s : Inner} (htrace : s.trace = []) :
    wp (admitTool display capability method owner begun) (fun t s' => Admitted t s'.trace ∧ s'.marks = s.marks)
      (fun _ _ => True) s := by
  unfold admitTool
  split
  swap
  · trivial
  rw [wp_bind, wp_get]
  split
  swap
  · trivial
  rw [wp_bind]
  refine wp_ofExcept (fun _ _ => ?_) fun _ _ => trivial
  rw [wp_bind, wp_look_inner]
  split_ifs
  · trivial
  rw [wp_bind]
  refine wp_ofExcept (fun _ _ => ?_) fun _ _ => trivial
  rw [wp_bind, wp_attempt]
  refine wp_mono (wp_beginParent htrace) ?_ fun error s' _ => ?_
  · rintro - s' ⟨hasked, hmarks⟩
    exact ⟨⟨rfl, rfl, rfl, hasked⟩, hmarks⟩
  · -- the marker is finished as unverified, and the admission fails
    simp only
    rw [wp_bind]
    show wp _ _ _ _
    refine wp_ofExcept (fun t ht => ?_) fun _ _ => trivial
    exact absurd (finishWithCleanup_eq_ok ht).1 nofun

/-- The guest stands, no input is held, and `last` is the producer's word that every port is free. -/
structure SafeToClear (t : ControlledTool) (trace : List Exchange) (last : Exchange) : Prop where
  stopped : SettledBy Exchange.Moves (Exchange.Frozen t.runtime) trace
  released : SettledBy Exchange.Presses Exchange.Releases trace
  method : last.method = "finish_temporal_operation"
  ports : ∃ reply ports, last.result = .ok reply ∧ index reply "parent" = t.parent.toValue ∧
    releasedPorts reply = some ports ∧ ∀ e ∈ trace, e.Presses → ports.count (portOf e.params) = 1

theorem count_eq_one_of_toFinset {ports : List ℕ} {S : Finset ℕ} (hlength : ports.length = S.card)
    (hset : ports.toFinset = S) {port : ℕ} (hport : port ∈ S) : ports.count port = 1 := by
  have hnodup : ports.Nodup := by
    rw [← hset] at hlength
    exact Multiset.toFinset_card_eq_card_iff_nodup.mp hlength.symm
  rw [← hset, List.mem_toFinset] at hport
  exact List.count_eq_one_of_mem hnodup hport

theorem Finished.safeToClear {w₀ w w' : World} (h : Finished w w' true) (hkept : Kept w₀ w) :
    ∃ last, w'.inner.trace = w.inner.trace ++ [last] ∧ SafeToClear w₀.tool w.inner.trace last := by
  obtain ⟨hstop, hinput, last, htrace, hmethod, reply, hreply, -, hverified⟩ := h.released rfl
  obtain ⟨-, hparent, -, ⟨ports, hports, hlength, hset⟩, -⟩ := hverified
  refine ⟨last, htrace, ?_, hkept.books.released hinput, hmethod, reply, ports, hreply, ?_, hports, ?_⟩
  · rw [← hkept.runtime]
    rcases hstop with hidle | hstopped
    · exact settledBy_of_none (hkept.books.idle hidle)
    · exact hkept.books.stopped hstopped
  · rw [hparent, hkept.parent]
  · exact fun e he hpress => count_eq_one_of_toFinset hlength hset (hkept.books.ports e he hpress)

/-- Whatever is called through an admitted tool, and whatever the link answers: the operation is marked once, and as
verified only where it is safe to clear the quarantine; otherwise the tool fails. And a call that failed with
`Cancelled` has sent nothing and left the flags as they were. -/
theorem cleanup_verified (display : LinkError → String) (capability : Option CancellationCapability)
    (method owner : String) (begun : Except LinkError Unit) (s s' : Inner) (tool : ControlledTool)
    (htrace : s.trace = []) (hmarks : s.marks = [])
    (hadmission : admitTool display capability method owner begun s = .ok tool s') (calls : List (String × Json))
    (outcome : Except LinkError ToolOutput) :
    let w := runCalls ⟨tool, s'⟩ calls
    let w' := after (finish display outcome) w
    (∃ verified, w'.inner.marks = [verified] ∧
      (verified = true →
        ∃ last, w'.inner.trace = w.inner.trace ++ [last] ∧ SafeToClear tool w.inner.trace last) ∧
      (verified = false → ∃ e, finish display outcome w = .error e w')) ∧
      ∀ method params w'', call method params w = .error .cancelled w'' → Restored w w'' := by
  intro w w'
  have hadmitted : Admitted tool s'.trace ∧ s'.marks = s.marks := by
    have hwp : wp (admitTool display capability method owner begun) _ _ s := wp_admitTool htrace
    rw [wp, hadmission] at hwp
    exact hwp
  have hkept : Kept ⟨tool, s'⟩ w := runCalls_kept calls hadmitted.1.books
  have hbefore : w.inner.marks = [] := hkept.marks.trans (hadmitted.2.trans hmarks)
  refine ⟨?_, fun method params w'' hcall => ?_⟩
  · have hfinish : wp (finish display outcome) _ _ w := wp_finish display outcome
    have hw' : w' = after (finish display outcome) w := rfl
    unfold wp at hfinish
    unfold after at hw'
    cases hrun : finish display outcome w with
    | ok output v =>
      rw [hrun] at hfinish hw'
      subst hw'
      have hmark := hfinish.marks
      rw [hbefore, List.nil_append] at hmark
      exact ⟨true, hmark, fun _ => hfinish.safeToClear hkept, nofun⟩
    | error e v =>
      rw [hrun] at hfinish hw'
      subst hw'
      obtain ⟨verified, hfinished⟩ := hfinish
      have hmark := hfinished.marks
      rw [hbefore, List.nil_append] at hmark
      refine ⟨verified, hmark, fun hverified => ?_, fun _ => ⟨e, rfl⟩⟩
      subst hverified
      exact hfinished.safeToClear hkept
  · have hwp : wp (call method params) _ _ w := wp_call hkept.books method params
    rw [wp, hcall] at hwp
    exact hwp.2 rfl

def steppingLink : Inner where
  launchId := some "launch"
  moments := fun _ => ⟨none, 0, "operation", some "launch"⟩
  answers := fun i =>
    let parent := OperationKey.toValue ⟨"launch", "owner", "operation"⟩
    ⟨true, .ok (if i = 0 then .obj [("parent", parent), ("status", .str "admitted")]
      else if i = 1 then .obj [("count", .nat 1), ("state", .str "frozen"), ("status", .str "completed"),
        ("unit", .str "frames")]
      else .obj [("cleanup_verified", .bool true), ("effects_started", .bool true), ("parent", parent),
        ("released_ports", .arr []), ("state", .str "frozen"), ("status", .str "completed")]), some "launch", nofun⟩
  persisted := fun _ => .ok ()
  trace := []
  marks := []

/-- A step that the producer carries out is cleared. -/
theorem cleanup_verified_step :
    ∃ tool s', admitTool LinkError.kind (some ⟨["step"], 1000⟩) "step" "owner" (.ok ()) steppingLink = .ok tool s' ∧
      (after (finish LinkError.kind (.ok (.json (.obj []))))
        (runCalls ⟨tool, s'⟩ [("step", .obj [("frames", .nat 1)])])).inner.marks = [true] ∧
      ∃ last, SafeToClear tool (runCalls ⟨tool, s'⟩ [("step", .obj [("frames", .nat 1)])]).inner.trace last := by
  have hrun : (match admitTool LinkError.kind (some ⟨["step"], 1000⟩) "step" "owner" (.ok ()) steppingLink with
      | .ok tool s' => (after (finish LinkError.kind (.ok (.json (.obj []))))
          (runCalls ⟨tool, s'⟩ [("step", .obj [("frames", .nat 1)])])).inner.marks
      | .error _ _ => []) = [true] := by
    decide +kernel
  cases hadmission : admitTool LinkError.kind (some ⟨["step"], 1000⟩) "step" "owner" (.ok ()) steppingLink with
  | error e s' =>
    rw [hadmission] at hrun
    cases hrun
  | ok tool s' =>
    rw [hadmission] at hrun
    obtain ⟨⟨verified, hmarks, hsafe, -⟩, -⟩ := cleanup_verified LinkError.kind _ _ _ _ steppingLink s' tool rfl rfl hadmission
      [("step", .obj [("frames", .nat 1)])] (.ok (.json (.obj [])))
    obtain rfl : verified = true := (List.cons.inj (hmarks.symm.trans hrun)).1
    obtain ⟨last, -, hlast⟩ := hsafe rfl
    exact ⟨tool, s', rfl, hrun, last, hlast⟩

end Emucap.Live.Tools
